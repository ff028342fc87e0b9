import Nidas.Lib.CondVar
import Nidas.Lib.Runs

/-!
# The queue of the sync record reader

A `SyncRecordReader` that is a client of a `SyncServer` keeps the samples that it receives in a
queue (`raf/SyncRecordReader.cc`).  The thread that distributes the samples waits in `receive`
when there are more than 60, the one that reads waits in `nextSample` when there is none, and
`endOfStream` ends both waits.  All of them wait on one condition, which is signalled and not
broadcast, so that a signal could wake the wrong thread.

It does not as long as one thread receives and one reads at a time (`heard_of_reaches`): a thread
that sleeps has a reason to.  Whatever the threads do, the samples are read in the order in which
they were received (`inOrder_of_reaches`).
-/

namespace Nidas.Dynld.SyncRecordQueue

open Lib

variable {σ : Type*}

/-- A call that waits on `_qcond`, or that has been woken and not gone on yet. -/
inductive QueueCall where
  | receive (woken : Bool)
  | nextSample (woken : Bool)
  deriving DecidableEq, Repr

namespace QueueCall

def asleep : QueueCall → Bool
  | receive woken => !woken
  | nextSample woken => !woken

/-- The wait ends. -/
def wake : QueueCall → QueueCall
  | receive _ => receive true
  | nextSample _ => nextSample true

def isReceive : QueueCall → Bool
  | receive _ => true
  | nextSample _ => false

def isNextSample : QueueCall → Bool
  | receive _ => false
  | nextSample _ => true

end QueueCall

/-- The members of a reader that are used, the calls in progress, the samples that have been put
into the queue and those that have been taken out, and whether `nextSample` has returned without
one. -/
structure RecordQueue (σ : Type*) where
  syncRecords : List σ := []
  eoq : Bool := false
  calls : List QueueCall := []
  accepted : List σ := []
  delivered : List σ := []
  ended : Bool := false
  deriving DecidableEq, Repr

/-- What can happen: a call with `_qcond` locked up to its wait or its end, a woken call that goes
on, or a wait that ends without a signal.  `choice` is the place of the call that a signal wakes. -/
inductive QueueAction (σ : Type*) where
  | receive (samp : σ) (choice : ℕ)
  | nextSample (choice : ℕ)
  | endOfStream (choice : ℕ)
  | resume (place choice : ℕ)
  | wakeUp (place : ℕ)
  deriving DecidableEq, Repr

namespace RecordQueue

/-- `_qcond.signal()` -/
def signalled (queue : RecordQueue σ) (choice : ℕ) : Option (List QueueCall) :=
  signal QueueCall.asleep QueueCall.wake choice queue.calls

/-- The test of the loop in `receive`. -/
def full (queue : RecordQueue σ) : Bool := !queue.eoq && decide (60 < queue.syncRecords.length)

/-- The test of the loop in `nextSample`. -/
def drained (queue : RecordQueue σ) : Bool := !queue.eoq && queue.syncRecords.isEmpty

/-- A sample is put into the queue. -/
def push (queue : RecordQueue σ) (samp : σ) (calls : List QueueCall) : RecordQueue σ :=
  { queue with
    syncRecords := queue.syncRecords ++ [samp]
    calls := calls
    accepted := queue.accepted ++ [samp] }

/-- `SyncRecordReader::receive` -/
def receive (queue : RecordQueue σ) (samp : σ) (choice : ℕ) : Option (RecordQueue σ) :=
  -- do not handle any more samples
  if queue.eoq then some queue
  else
    match queue.signalled choice with
    | none => none
    | some calls =>
        let queue := queue.push samp calls
        some (if queue.full then { queue with calls := queue.calls ++ [.receive false] } else queue)

/-- The part of `nextSample` behind its wait. -/
def take (queue : RecordQueue σ) (choice : ℕ) : Option (RecordQueue σ) :=
  match queue.syncRecords with
  | [] => some { queue with ended := true }
  | samp :: rest =>
      match queue.signalled choice with
      | none => none
      | some calls =>
          some { queue with
            syncRecords := rest
            calls := calls
            delivered := queue.delivered ++ [samp] }

/-- `SyncRecordReader::nextSample` -/
def nextSample (queue : RecordQueue σ) (choice : ℕ) : Option (RecordQueue σ) :=
  if queue.drained then some { queue with calls := queue.calls ++ [.nextSample false] }
  else queue.take choice

/-- `SyncRecordReader::endOfStream` -/
def endOfStream (queue : RecordQueue σ) (choice : ℕ) : Option (RecordQueue σ) :=
  (queue.signalled choice).map fun calls => { queue with eoq := true, calls := calls }

/-- A call that has been woken tests again. -/
def resume (queue : RecordQueue σ) (place choice : ℕ) : Option (RecordQueue σ) :=
  match queue.calls[place]? with
  | some (.receive true) =>
      some { queue with
        calls := proceed queue.calls place (if queue.full then some (.receive false) else none) }
  | some (.nextSample true) =>
      if queue.drained then
        some { queue with calls := proceed queue.calls place (some (.nextSample false)) }
      else take { queue with calls := proceed queue.calls place none } choice
  | _ => none

/-- A wait ends. -/
def wakeUp (queue : RecordQueue σ) (place : ℕ) : Option (RecordQueue σ) :=
  match queue.calls[place]? with
  | some call => some { queue with calls := proceed queue.calls place (some call.wake) }
  | none => none

def step (queue : RecordQueue σ) : QueueAction σ → Option (RecordQueue σ)
  | .receive samp choice => queue.receive samp choice
  | .nextSample choice => queue.nextSample choice
  | .endOfStream choice => queue.endOfStream choice
  | .resume place choice => queue.resume place choice
  | .wakeUp place => queue.wakeUp place

/-- One thread receives at a time, and one reads. -/
def oneEach (queue : RecordQueue σ) : QueueAction σ → Bool
  | .receive _ _ => !queue.calls.any QueueCall.isReceive
  | .nextSample _ => !queue.calls.any QueueCall.isNextSample
  | _ => true

end RecordQueue

/-! ## Steps -/

/-- The steps, with the calls in progress before and after. -/
inductive Move (queue : RecordQueue σ) : QueueAction σ → RecordQueue σ → Prop where
  | refuse (samp : σ) (choice : ℕ) (heoq : queue.eoq = true) :
      Move queue (.receive samp choice) queue
  | receive {samp : σ} {choice : ℕ} {calls : List QueueCall} (heoq : queue.eoq = false)
      (hsignal : queue.signalled choice = some calls)
      (hroom : queue.syncRecords.length < 60) :
      Move queue (.receive samp choice) (queue.push samp calls)
  | receiveWait {samp : σ} {choice : ℕ} {calls : List QueueCall} (heoq : queue.eoq = false)
      (hsignal : queue.signalled choice = some calls)
      (hfull : 60 ≤ queue.syncRecords.length) :
      Move queue (.receive samp choice)
        { queue.push samp calls with calls := calls ++ [.receive false] }
  | nextWait {choice : ℕ} (heoq : queue.eoq = false) (hempty : queue.syncRecords = []) :
      Move queue (.nextSample choice) { queue with calls := queue.calls ++ [.nextSample false] }
  | nextSample {choice : ℕ} {next : RecordQueue σ} (htake : queue.take choice = some next)
      (hready : queue.eoq = true ∨ queue.syncRecords ≠ []) :
      Move queue (.nextSample choice) next
  | endOfStream {choice : ℕ} {calls : List QueueCall}
      (hsignal : queue.signalled choice = some calls) :
      Move queue (.endOfStream choice) { queue with eoq := true, calls := calls }
  | receiveAgain {place choice : ℕ} {before after : List QueueCall}
      (hcalls : queue.calls = before ++ .receive true :: after) (heoq : queue.eoq = false)
      (hfull : 60 < queue.syncRecords.length) :
      Move queue (.resume place choice)
        { queue with calls := before ++ .receive false :: after }
  | receiveLeave {place choice : ℕ} {before after : List QueueCall}
      (hcalls : queue.calls = before ++ .receive true :: after)
      (hroom : queue.eoq = true ∨ queue.syncRecords.length ≤ 60) :
      Move queue (.resume place choice) { queue with calls := before ++ after }
  | nextAgain {place choice : ℕ} {before after : List QueueCall}
      (hcalls : queue.calls = before ++ .nextSample true :: after) (heoq : queue.eoq = false)
      (hempty : queue.syncRecords = []) :
      Move queue (.resume place choice)
        { queue with calls := before ++ .nextSample false :: after }
  | nextLeave {place choice : ℕ} {before after : List QueueCall} {next : RecordQueue σ}
      (hcalls : queue.calls = before ++ .nextSample true :: after)
      (htake : RecordQueue.take { queue with calls := before ++ after } choice = some next)
      (hready : queue.eoq = true ∨ queue.syncRecords ≠ []) :
      Move queue (.resume place choice) next
  | wakeUp {place : ℕ} {before after : List QueueCall} {call : QueueCall}
      (hcalls : queue.calls = before ++ call :: after) :
      Move queue (.wakeUp place) { queue with calls := before ++ call.wake :: after }

theorem ready_of_drained {queue : RecordQueue σ} (hdrained : ¬ queue.drained = true) :
    queue.eoq = true ∨ queue.syncRecords ≠ [] := by
  unfold RecordQueue.drained at hdrained
  cases heoq : queue.eoq with
  | true => exact .inl rfl
  | false =>
      right
      rintro hempty
      exact hdrained (by simp [heoq, hempty])

theorem move_of_step {queue next : RecordQueue σ} {action : QueueAction σ}
    (hstep : queue.step action = some next) : Move queue action next := by
  cases action with
  | receive samp choice =>
      unfold RecordQueue.step RecordQueue.receive at hstep
      dsimp only at hstep
      split at hstep
      · next heoq =>
          cases hstep
          exact .refuse samp choice heoq
      · next heoq =>
          split at hstep
          · cases hstep
          · next calls hsignal =>
              have heoq : queue.eoq = false := by simpa using heoq
              have hlength : (queue.push samp calls).syncRecords.length =
                  queue.syncRecords.length + 1 := by
                simp [RecordQueue.push]
              split at hstep
              · next hfull =>
                  cases hstep
                  have hlt : 60 < (queue.push samp calls).syncRecords.length := by
                    simpa [RecordQueue.full, RecordQueue.push, heoq] using hfull
                  exact .receiveWait heoq hsignal (by omega)
              · next hfull =>
                  cases hstep
                  have hle : ¬ 60 < (queue.push samp calls).syncRecords.length := by
                    simpa [RecordQueue.full, RecordQueue.push, heoq] using hfull
                  exact .receive heoq hsignal (by omega)
  | nextSample choice =>
      unfold RecordQueue.step RecordQueue.nextSample at hstep
      dsimp only at hstep
      split at hstep
      · next hdrained =>
          cases hstep
          have hboth : queue.eoq = false ∧ queue.syncRecords = [] := by
            simpa [RecordQueue.drained] using hdrained
          exact .nextWait hboth.1 hboth.2
      · next hdrained => exact .nextSample hstep (ready_of_drained hdrained)
  | endOfStream choice =>
      obtain ⟨calls, hsignal, rfl⟩ := Option.map_eq_some_iff.mp hstep
      exact .endOfStream hsignal
  | resume place choice =>
      unfold RecordQueue.step RecordQueue.resume at hstep
      dsimp only at hstep
      split at hstep
      · next hplace =>
          obtain ⟨before, after, hsplit, hset, herase⟩ := exists_split_at hplace
          cases hstep
          split
          · next hfull =>
              have hboth : queue.eoq = false ∧ 60 < queue.syncRecords.length := by
                simpa [RecordQueue.full] using hfull
              rw [hset]
              exact .receiveAgain hsplit hboth.1 hboth.2
          · next hfull =>
              rw [herase]
              refine .receiveLeave hsplit ?_
              cases heoq : queue.eoq with
              | true => exact .inl rfl
              | false =>
                  right
                  simpa [RecordQueue.full, heoq] using hfull
      · next hplace =>
          obtain ⟨before, after, hsplit, hset, herase⟩ := exists_split_at hplace
          split at hstep
          · next hdrained =>
              cases hstep
              have hboth : queue.eoq = false ∧ queue.syncRecords = [] := by
                simpa [RecordQueue.drained] using hdrained
              rw [hset]
              exact .nextAgain hsplit hboth.1 hboth.2
          · next hdrained =>
              rw [herase] at hstep
              exact .nextLeave hsplit hstep (ready_of_drained hdrained)
      · cases hstep
  | wakeUp place =>
      unfold RecordQueue.step RecordQueue.wakeUp at hstep
      dsimp only at hstep
      split at hstep
      · next call hplace =>
          obtain ⟨before, after, hsplit, hset, -⟩ := exists_split_at hplace
          cases hstep
          rw [hset]
          exact .wakeUp hsplit
      · cases hstep

/-! ## The order of the samples -/

/-- The samples that have been taken out are those that were put in, but for those in the queue. -/
def InOrder (queue : RecordQueue σ) : Prop :=
  queue.delivered ++ queue.syncRecords = queue.accepted

theorem InOrder.take {queue next : RecordQueue σ} {choice : ℕ} (h : InOrder queue)
    (htake : queue.take choice = some next) : InOrder next := by
  unfold RecordQueue.take at htake
  split at htake
  · cases htake
    exact h
  · next samp rest hrecords =>
      split at htake
      · cases htake
      · cases htake
        unfold InOrder at h ⊢
        rw [hrecords] at h
        simpa using h

theorem InOrder.move {queue next : RecordQueue σ} {action : QueueAction σ} (h : InOrder queue)
    (hmove : Move queue action next) : InOrder next := by
  cases hmove with
  | receive | receiveWait =>
      unfold InOrder RecordQueue.push at *
      rw [← List.append_assoc, h]
  | nextSample htake => exact h.take htake
  | @nextLeave place choice before after next hcalls htake =>
      have hbefore : InOrder { queue with calls := before ++ after } := h
      exact hbefore.take htake
  | _ => exact h

/-- **Samples are read in the order in which they were received**, each of them once, whatever
threads there are. -/
theorem inOrder_of_reaches {queue : RecordQueue σ}
    (hreach : Reaches RecordQueue.step {} queue) : InOrder queue := by
  refine hreach.invariant rfl ?_
  intro before action after h hstep
  exact h.move (move_of_step hstep)

/-! ## Threads that sleep -/

/-- The invariant of a run in which one thread receives at a time and one reads. -/
structure Heard (queue : RecordQueue σ) : Prop where
  oneReceive : queue.calls.countP QueueCall.isReceive ≤ 1
  oneNext : queue.calls.countP QueueCall.isNextSample ≤ 1
  limit : queue.syncRecords.length ≤ 61
  room : queue.eoq = false → queue.syncRecords.length ≤ 60 ∨
    0 < queue.calls.countP QueueCall.isReceive
  receiving : .receive false ∈ queue.calls → queue.eoq = false ∧ 60 < queue.syncRecords.length
  reading : .nextSample false ∈ queue.calls → queue.eoq = false ∧ queue.syncRecords = []
  ended : queue.ended = true → queue.eoq = true ∧ queue.syncRecords = []

theorem isReceive_wake (call : QueueCall) : call.wake.isReceive = call.isReceive := by
  cases call <;> rfl

theorem isNextSample_wake (call : QueueCall) : call.wake.isNextSample = call.isNextSample := by
  cases call <;> rfl

theorem asleep_wake (call : QueueCall) : call.wake.asleep = false := by
  cases call <;> rfl

/-- A call that sleeps is one of two kinds. -/
theorem countP_asleep (calls : List QueueCall) :
    calls.countP QueueCall.asleep = calls.count (.receive false) +
      calls.count (.nextSample false) := by
  induction calls with
  | nil => rfl
  | cons call calls ih =>
      rw [List.countP_cons, List.count_cons, List.count_cons, ih]
      cases call with
      | receive woken =>
          cases woken with
          | false =>
              simp [QueueCall.asleep]
              omega
          | true => simp [QueueCall.asleep]
      | nextSample woken =>
          cases woken with
          | false =>
              simp [QueueCall.asleep]
              omega
          | true => simp [QueueCall.asleep]

theorem count_le_countP (calls : List QueueCall) :
    calls.count (.receive false) ≤ calls.countP QueueCall.isReceive ∧
      calls.count (.nextSample false) ≤ calls.countP QueueCall.isNextSample := by
  constructor
  · apply List.countP_mono_left
    intro call _ hcall
    rw [beq_iff_eq.mp hcall]
    rfl
  · apply List.countP_mono_left
    intro call _ hcall
    rw [beq_iff_eq.mp hcall]
    rfl

namespace Heard

variable {queue : RecordQueue σ} (h : Heard queue)

include h

/-- The two waits do not happen together. -/
theorem countP_asleep_le : queue.calls.countP QueueCall.asleep ≤ 1 := by
  have hle := count_le_countP queue.calls
  have hreceive := h.oneReceive
  have hnext := h.oneNext
  rw [countP_asleep]
  by_cases hreceiving : .receive false ∈ queue.calls
  · have hnone : QueueCall.nextSample false ∉ queue.calls := by
      intro hreading
      have hfull := (h.receiving hreceiving).2
      rw [(h.reading hreading).2] at hfull
      cases hfull
    rw [List.count_eq_zero.mpr hnone]
    omega
  · rw [List.count_eq_zero.mpr hreceiving]
    omega

/-- **A signal wakes the thread that sleeps.** -/
theorem awake_of_signalled {choice : ℕ} {calls : List QueueCall}
    (hsignal : queue.signalled choice = some calls) :
    (∀ call ∈ calls, call.asleep = false) ∧
      calls.countP QueueCall.isReceive = queue.calls.countP QueueCall.isReceive ∧
      calls.countP QueueCall.isNextSample = queue.calls.countP QueueCall.isNextSample := by
  have hcount := countP_of_signal asleep_wake hsignal
  have hle := h.countP_asleep_le
  refine ⟨?_, ?_, ?_⟩
  · have hzero : calls.countP QueueCall.asleep = 0 := by omega
    intro call hcall
    simpa using List.countP_eq_zero.mp hzero call hcall
  · exact countP_of_map_eq (map_of_signal (fun call _ => isReceive_wake call) hsignal)
  · exact countP_of_map_eq (map_of_signal (fun call _ => isNextSample_wake call) hsignal)

end Heard

/-- Nobody sleeps. -/
theorem notMem_of_awake {calls : List QueueCall} (hawake : ∀ call ∈ calls, call.asleep = false) :
    .receive false ∉ calls ∧ .nextSample false ∉ calls := by
  constructor
  · intro hmem
    cases hawake _ hmem
  · intro hmem
    cases hawake _ hmem

theorem Heard.take {queue next : RecordQueue σ} {choice : ℕ} (h : Heard queue)
    (htake : queue.take choice = some next) (hready : queue.eoq = true ∨ queue.syncRecords ≠ []) :
    Heard next := by
  unfold RecordQueue.take at htake
  split at htake
  · next hrecords =>
      cases htake
      have heoq : queue.eoq = true := hready.resolve_right fun hne => hne hrecords
      exact { h with ended := fun _ => ⟨heoq, hrecords⟩ }
  · next samp rest hrecords =>
      split at htake
      · cases htake
      · next calls hsignal =>
          cases htake
          obtain ⟨hawake, hreceive, hnext⟩ := h.awake_of_signalled hsignal
          obtain ⟨hnotReceive, hnotNext⟩ := notMem_of_awake hawake
          have hlimit := h.limit
          rw [hrecords, List.length_cons] at hlimit
          exact
            { oneReceive := hreceive.trans_le h.oneReceive
              oneNext := hnext.trans_le h.oneNext
              limit := by dsimp only; omega
              room := fun _ => .inl (by dsimp only; omega)
              receiving := fun hmem => absurd hmem hnotReceive
              reading := fun hmem => absurd hmem hnotNext
              ended := fun hended => by
                have hempty := (h.ended hended).2
                rw [hrecords] at hempty
                cases hempty }

/-- A call leaves, or goes on as one of its kind that sleeps only with a reason. -/
theorem Heard.proceed {queue : RecordQueue σ} {before after : List QueueCall} {call : QueueCall}
    (h : Heard queue) (hcalls : queue.calls = before ++ call :: after) {new : List QueueCall}
    (hreceive : new.countP QueueCall.isReceive ≤ [call].countP QueueCall.isReceive)
    (hnext : new.countP QueueCall.isNextSample ≤ [call].countP QueueCall.isNextSample)
    (hroom : queue.eoq = false → queue.syncRecords.length ≤ 60 ∨
      new.countP QueueCall.isReceive = [call].countP QueueCall.isReceive)
    (hreceiving : .receive false ∈ new → queue.eoq = false ∧ 60 < queue.syncRecords.length)
    (hreading : .nextSample false ∈ new → queue.eoq = false ∧ queue.syncRecords = []) :
    Heard { queue with calls := before ++ (new ++ after) } := by
  have hcall : queue.calls = before ++ ([call] ++ after) := hcalls
  have honeReceive := h.oneReceive
  have honeNext := h.oneNext
  rw [hcall, List.countP_append, List.countP_append] at honeReceive honeNext
  exact
    { oneReceive := by
        dsimp only
        rw [List.countP_append, List.countP_append]
        omega
      oneNext := by
        dsimp only
        rw [List.countP_append, List.countP_append]
        omega
      limit := h.limit
      room := by
        intro heoq
        dsimp only
        rcases h.room heoq with hle | hpos
        · exact .inl hle
        · rcases hroom heoq with hle | hsame
          · exact .inl hle
          · right
            rw [hcall, List.countP_append, List.countP_append] at hpos
            rw [List.countP_append, List.countP_append]
            omega
      receiving := by
        intro hmem
        rcases List.mem_append.mp hmem with hmem | hmem
        · exact h.receiving (by rw [hcall]; exact List.mem_append_left _ hmem)
        · rcases List.mem_append.mp hmem with hmem | hmem
          · exact hreceiving hmem
          · refine h.receiving ?_
            rw [hcall]
            exact List.mem_append_right _ (List.mem_append_right _ hmem)
      reading := by
        intro hmem
        rcases List.mem_append.mp hmem with hmem | hmem
        · exact h.reading (by rw [hcall]; exact List.mem_append_left _ hmem)
        · rcases List.mem_append.mp hmem with hmem | hmem
          · exact hreading hmem
          · refine h.reading ?_
            rw [hcall]
            exact List.mem_append_right _ (List.mem_append_right _ hmem)
      ended := h.ended }

/-- Nobody receives, so that the sample that is put in is the 61st at most. -/
theorem Heard.push {queue : RecordQueue σ} {samp : σ} {choice : ℕ} {calls : List QueueCall}
    (h : Heard queue) (hfree : queue.calls.countP QueueCall.isReceive = 0)
    (heoq : queue.eoq = false) (hsignal : queue.signalled choice = some calls)
    {new : List QueueCall} (hnew : new = [] ∧ queue.syncRecords.length < 60 ∨
      new = [.receive false] ∧ 60 ≤ queue.syncRecords.length) :
    Heard { queue.push samp calls with calls := calls ++ new } := by
  obtain ⟨hawake, hreceive, hnext⟩ := h.awake_of_signalled hsignal
  obtain ⟨hnotReceive, hnotNext⟩ := notMem_of_awake hawake
  have hroom : queue.syncRecords.length ≤ 60 := (h.room heoq).resolve_right (by omega)
  have hlength : (queue.syncRecords ++ [samp]).length = queue.syncRecords.length + 1 := by simp
  have hone : new.countP QueueCall.isReceive ≤ 1 ∧ new.countP QueueCall.isNextSample = 0 ∧
      QueueCall.nextSample false ∉ new := by
    rcases hnew with ⟨rfl, -⟩ | ⟨rfl, -⟩
    · decide
    · decide
  have honeNext := h.oneNext
  exact
    { oneReceive := by
        dsimp only
        rw [List.countP_append]
        omega
      oneNext := by
        dsimp only
        rw [List.countP_append]
        omega
      limit := by
        dsimp only [RecordQueue.push]
        omega
      room := by
        intro _
        dsimp only [RecordQueue.push]
        rcases hnew with ⟨-, hlt⟩ | ⟨rfl, -⟩
        · left
          omega
        · right
          rw [List.countP_append]
          exact Nat.lt_of_lt_of_le Nat.zero_lt_one (Nat.le_add_left _ _)
      receiving := by
        intro hmem
        dsimp only [RecordQueue.push] at hmem ⊢
        rcases List.mem_append.mp hmem with hmem | hmem
        · exact absurd hmem hnotReceive
        · rcases hnew with ⟨rfl, -⟩ | ⟨-, hfull⟩
          · cases hmem
          · exact ⟨heoq, by omega⟩
      reading := by
        intro hmem
        rcases List.mem_append.mp hmem with hmem | hmem
        · exact absurd hmem hnotNext
        · exact absurd hmem hone.2.2
      ended := by
        intro hended
        have hclosed := (h.ended hended).1
        rw [heoq] at hclosed
        cases hclosed }

theorem countP_eq_zero_of_not_any {calls : List QueueCall} {kind : QueueCall → Bool}
    (h : (!calls.any kind) = true) : calls.countP kind = 0 := by
  rw [List.countP_eq_zero]
  intro call hmem hkind
  rw [List.any_eq_true.mpr ⟨call, hmem, hkind⟩] at h
  cases h

theorem Heard.move {queue next : RecordQueue σ} {action : QueueAction σ} (h : Heard queue)
    (hone : queue.oneEach action = true) (hmove : Move queue action next) : Heard next := by
  cases hmove with
  | refuse => exact h
  | @receive samp choice calls heoq hsignal hroom =>
      have hpush : Heard { queue.push samp calls with calls := calls ++ [] } :=
        h.push (countP_eq_zero_of_not_any hone) heoq hsignal (.inl ⟨rfl, hroom⟩)
      rw [List.append_nil] at hpush
      exact hpush
  | receiveWait heoq hsignal hfull =>
      exact h.push (countP_eq_zero_of_not_any hone) heoq hsignal (.inr ⟨rfl, hfull⟩)
  | nextWait heoq hempty =>
      have hfree := countP_eq_zero_of_not_any hone
      have hsame : (queue.calls ++ [QueueCall.nextSample false]).countP QueueCall.isReceive =
          queue.calls.countP QueueCall.isReceive := by
        rw [List.countP_append]
        rfl
      exact
        { h with
          oneReceive := hsame.trans_le h.oneReceive
          oneNext := by
            dsimp only
            rw [List.countP_append, hfree]
            exact Nat.le_refl 1
          room := fun heoq => by
            dsimp only
            rw [hsame]
            exact h.room heoq
          receiving := by
            intro hmem
            refine h.receiving ((List.mem_append.mp hmem).resolve_right ?_)
            decide
          reading := fun _ => ⟨heoq, hempty⟩ }
  | nextSample htake hready => exact h.take htake hready
  | endOfStream hsignal =>
      obtain ⟨hawake, hreceive, hnext⟩ := h.awake_of_signalled hsignal
      obtain ⟨hnotReceive, hnotNext⟩ := notMem_of_awake hawake
      exact
        { oneReceive := hreceive.trans_le h.oneReceive
          oneNext := hnext.trans_le h.oneNext
          limit := h.limit
          room := fun heoq => by cases heoq
          receiving := fun hmem => absurd hmem hnotReceive
          reading := fun hmem => absurd hmem hnotNext
          ended := fun hended => ⟨rfl, (h.ended hended).2⟩ }
  | @receiveAgain place choice before after hcalls heoq hfull =>
      have hagain : Heard { queue with calls := before ++ ([.receive false] ++ after) } :=
        h.proceed hcalls (Nat.le_refl _) (Nat.le_refl _) (fun _ => .inr rfl)
          (fun _ => ⟨heoq, hfull⟩) (fun hmem => absurd hmem (by decide))
      exact hagain
  | @receiveLeave place choice before after hcalls hroom =>
      have hleave : Heard { queue with calls := before ++ ([] ++ after) } :=
        h.proceed hcalls (Nat.zero_le _) (Nat.zero_le _)
          (fun heoq => .inl (hroom.resolve_left (by rw [heoq]; decide)))
          (fun hmem => by cases hmem) (fun hmem => by cases hmem)
      exact hleave
  | @nextAgain place choice before after hcalls heoq hempty =>
      have hagain : Heard { queue with calls := before ++ ([.nextSample false] ++ after) } :=
        h.proceed hcalls (Nat.le_refl _) (Nat.le_refl _) (fun _ => .inr rfl)
          (fun hmem => absurd hmem (by decide)) (fun _ => ⟨heoq, hempty⟩)
      exact hagain
  | @nextLeave place choice before after next hcalls htake hready =>
      have hbefore : Heard { queue with calls := before ++ ([] ++ after) } :=
        h.proceed hcalls (Nat.zero_le _) (Nat.zero_le _) (fun _ => .inr rfl)
          (fun hmem => by cases hmem) (fun hmem => by cases hmem)
      exact hbefore.take htake hready
  | @wakeUp place before after call hcalls =>
      have hreceive : [call.wake].countP QueueCall.isReceive =
          [call].countP QueueCall.isReceive := by
        rw [List.countP_singleton, List.countP_singleton, isReceive_wake]
      have hnext : [call.wake].countP QueueCall.isNextSample =
          [call].countP QueueCall.isNextSample := by
        rw [List.countP_singleton, List.countP_singleton, isNextSample_wake]
      obtain ⟨hnotReceive, hnotNext⟩ : QueueCall.receive false ∉ [call.wake] ∧
          QueueCall.nextSample false ∉ [call.wake] :=
        notMem_of_awake fun other hmem => by
          rw [List.mem_singleton.mp hmem]
          exact asleep_wake call
      exact h.proceed hcalls (Nat.le_of_eq hreceive) (Nat.le_of_eq hnext) (fun _ => .inr hreceive)
        (fun hmem => absurd hmem hnotReceive) (fun hmem => absurd hmem hnotNext)

/-- **A thread that sleeps has a reason to**, as long as one thread receives at a time and one
reads: the one that receives sleeps only while more than 60 samples wait to be read, the one that
reads only while there is none, and neither after the end of the stream.  There are never more
than 61 samples in the queue, they are read in the order in which they were received, and when
`nextSample` returns without one, all of them have been. -/
theorem heard_of_reaches {queue : RecordQueue σ}
    (hreach : Reaches (restrict RecordQueue.oneEach RecordQueue.step) {} queue) :
    queue.delivered ++ queue.syncRecords = queue.accepted ∧ queue.syncRecords.length ≤ 61 ∧
      (.receive false ∈ queue.calls → queue.eoq = false ∧ 60 < queue.syncRecords.length) ∧
      (.nextSample false ∈ queue.calls → queue.eoq = false ∧ queue.delivered = queue.accepted) ∧
      (queue.ended = true → queue.eoq = true ∧ queue.delivered = queue.accepted) := by
  have hstart : Heard ({} : RecordQueue σ) :=
    ⟨by simp, by simp, by simp, fun _ => .inl (by simp), by simp, by simp, by simp⟩
  have h : Heard queue := by
    refine hreach.invariant hstart ?_
    intro before action after h hstep
    obtain ⟨hone, hstep⟩ := restrict_eq_some.mp hstep
    exact h.move hone (move_of_step hstep)
  have horder : InOrder queue := inOrder_of_reaches hreach.of_restrict
  refine ⟨horder, h.limit, h.receiving, ?_, ?_⟩
  · intro hmem
    obtain ⟨heoq, hempty⟩ := h.reading hmem
    refine ⟨heoq, ?_⟩
    rw [← horder, hempty, List.append_nil]
  · intro hended
    obtain ⟨heoq, hempty⟩ := h.ended hended
    refine ⟨heoq, ?_⟩
    rw [← horder, hempty, List.append_nil]

/-- A thread that reads waits for the first of 62 samples, and the one that receives waits behind
the last. -/
def fillingUp : List (QueueAction ℕ) :=
  [.nextSample 0, .receive 0 0, .resume 0 0] ++ (List.range 61).map fun i => .receive (i + 1) 0

theorem heard_of_reaches_fillingUp :
    ∃ queue : RecordQueue ℕ,
      Reaches (restrict RecordQueue.oneEach RecordQueue.step) {} queue ∧
        .receive false ∈ queue.calls ∧ queue.delivered = [0] ∧ queue.syncRecords.length = 61 := by
  have hrun : ((runSteps (restrict RecordQueue.oneEach RecordQueue.step) {} fillingUp).any
      fun queue => decide (.receive false ∈ queue.calls ∧ queue.delivered = [0])) = true := by
    decide +kernel
  obtain ⟨queue, hreach, hcheck⟩ := exists_reaches_of_any hrun
  obtain ⟨hmem, hdelivered⟩ := of_decide_eq_true hcheck
  obtain ⟨-, hlimit, hreceiving, -⟩ := heard_of_reaches hreach
  have hfull := (hreceiving hmem).2
  exact ⟨queue, hreach, hmem, hdelivered, by omega⟩

end Nidas.Dynld.SyncRecordQueue
