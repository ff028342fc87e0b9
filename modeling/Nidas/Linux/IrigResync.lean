import Nidas.Lib.Answers
import Nidas.Linux.Irig

/-!
# Resync callbacks of the IRIG driver

Once a second a callback of the driver itself, `oneHzFunction`, compares the software clock with a
snapshot of the IRIG clock or the system clock.  If the clock is off for several seconds,
`checkSoftTicker` asks for a reset of the counters, and if the card has gained or lost its
sync, `oneHzFunction` asks for one itself.  The tasklet does the reset, in the first pass after an
interrupt has taken the times for it, and runs the resync callbacks of the clients if
`notifyClients` is set.

`checkSoftTicker` is told whether the clients are to be notified, and does not pass it on: only the
requests of `oneHzFunction` itself set `notifyClients`.  A reset is announced exactly if there is
such a request since the last reset.

The requests since the last reset are part of the state here, to be able to say so.
-/

namespace Nidas.Linux

open Lib

/-! ## The code -/

/-- `struct irig_callback`: an entry with its rate, and whether there is a resync callback. -/
structure IrigCallback where
  entry : ℕ
  rate : IrigRate
  resync : Bool
  deriving DecidableEq, Repr

/-- Who asked for a reset of the counters: the module when it was loaded, a user with an ioctl,
`oneHzFunction` or `checkSoftTicker`. -/
inductive ResetRequest where
  | module
  | ioctl
  | oneHz
  | softTicker (notify : Bool)
  deriving DecidableEq, Repr

/-- Whether the clients are to be notified. -/
def ResetRequest.notify : ResetRequest → Bool
  | module | ioctl => false
  | oneHz => true
  | softTicker notify => notify

/-- A reset of the counters: the requests for it, the callbacks that are registered and those of
which the resync callback is called. -/
structure ResetReport where
  requests : List ResetRequest
  registered : List IrigCallback
  called : List IrigCallback
  deriving DecidableEq, Repr

/-- A reset that `checkSoftTicker` asked for with notification is announced to every client with a
resync callback, by one call, and one that was only asked for without notification is not. -/
def ResetReport.Announced (report : ResetReport) : Prop :=
  (.softTicker true ∈ report.requests →
      report.called = report.registered.filter IrigCallback.resync) ∧
    ((∀ request ∈ report.requests, request.notify = false) → report.called = [])

/-- `IRIG_MAX_DT_DIFF` -/
def IRIG_MAX_DT_DIFF : ℤ := 20

/-- `IRIG_MIN_DT_DIFF` -/
def IRIG_MIN_DT_DIFF : ℤ := -20

/-- `MAX_TMSEC_SINCE_LAST_SYNC`: five seconds. -/
def MAX_TMSEC_SINCE_LAST_SYNC : ℤ := 50000

/-- A difference of times of the day, if midnight is between them. -/
def acrossMidnight (perDay diff : ℤ) : ℤ :=
  if diff > perDay.tdiv 2 then diff - perDay
  else if diff < (-perDay).tdiv 2 then diff + perDay
  else diff

/-- The board, with the members for the check of the software clock, the callback lists and the
requests since the last reset. -/
structure IrigDriver where
  board : IrigBoard
  lastStatus : UInt8
  lastSyncTime : ℤ
  ndtLast : ℤ
  ndtNSecs : ℤ
  slews : ℤ → ℕ
  callbackLists : IrigRate → List IrigCallback
  pendingAdds : List IrigCallback
  pendingRemoves : List IrigCallback
  requests : List ResetRequest

/-- What can happen next: an interrupt, a correction of the pending ticks by the watchdog, the ioctl
that sets the clock of the card, changes of the callbacks, and the steps of the tasklet. -/
inductive DriverAction where
  | interrupt (its uts : Timespec) (status : UInt8)
  | watchdog (ndt : ℤ)
  | setClock
  | register (callback : IrigCallback)
  | unregister (callback : IrigCallback)
  | schedule
  | beginPass
  | endPass

/-- Tenths of milliseconds since midnight. -/
def Timespec.tmsecs (ts : Timespec) : ℤ := (ts.tv_sec % 86400 * 10000 + ts.tv_nsec / 100000 : ℕ)

namespace IrigDriver

/-- `GET_TMSEC_CLOCK` -/
def tmsecClock (driver : IrigDriver) : ℤ := driver.board.TMsecClock (!driver.board.writeClock)

/-- `ndt` in `checkSoftTicker`: the ticks between the software clock, that is one tick behind, and
another clock. -/
def ticksOff (newClock currClock : ℤ) : ℤ :=
  let newClock := (newClock - newClock.tmod TMSEC_PER_SOFT_TIC).tmod tmsecsPerDay
  acrossMidnight ((tmsecsPerDay : ℤ).tdiv TMSEC_PER_SOFT_TIC)
    ((newClock - currClock).tdiv TMSEC_PER_SOFT_TIC - 1)

/-- A request for a reset of the counters. -/
def requestReset (driver : IrigDriver) (request : ResetRequest) : IrigDriver :=
  { driver with
    board := { driver.board with resetRequested := true }
    requests := request :: driver.requests }

/-- The clients will be notified. -/
def notifyClients (driver : IrigDriver) : IrigDriver :=
  { driver with board := { driver.board with notifyClients := true } }

/-- `checkSoftTicker`.  Whether to notify the clients is only used for the record. -/
def checkSoftTicker (driver : IrigDriver) (newClock currClock scale : ℤ) (notify : Bool) :
    IrigDriver :=
  let ndt := ticksOff newClock currClock
  if ndt > IRIG_MAX_DT_DIFF.tdiv scale ∨ ndt < IRIG_MIN_DT_DIFF.tdiv scale then
    if |ndt - driver.ndtLast| < 4 then
      let counted := { driver with ndtNSecs := driver.ndtNSecs + 1 }
      if counted.ndtNSecs > 3 then counted.requestReset (.softTicker notify) else counted
    else { driver with ndtLast := ndt, ndtNSecs := 0 }
  else
    -- ask for more or fewer 100 Hz callbacks, with a damper on the correction
    let damped := if ndt < -4 then -4 else if ndt > 10 then 10 else ndt
    { driver with
      slews := Function.update driver.slews (ndt - IRIG_MIN_DT_DIFF)
        (driver.slews (ndt - IRIG_MIN_DT_DIFF) + 1)
      board := { driver.board with pending100Hz := driver.board.pending100Hz + damped }
      ndtLast := damped
      ndtNSecs := 0 }

/-- `syncDiff` in `oneHzFunction` -/
def syncDiff (driver : IrigDriver) : ℤ :=
  acrossMidnight tmsecsPerDay
    (if driver.lastSyncTime > 0 then driver.tmsecClock - driver.lastSyncTime else 0)

/-- `oneHzFunction`, without the sample that it sends to the user -/
def oneHzFunction (driver : IrigDriver) : IrigDriver :=
  let snapshot := driver.board.snapshot
  if driver.board.doSnapShot then driver
  else if snapshot.statusOR &&& notSynced = 0 then
    let checked :=
      if driver.syncDiff > MAX_TMSEC_SINCE_LAST_SYNC then
        -- the first sync after a long time, with half the tolerances
        driver.checkSoftTicker snapshot.irig_time.tmsecs snapshot.clock_time 2 true
      else if driver.board.syncdSet then
        driver.checkSoftTicker snapshot.irig_time.tmsecs snapshot.clock_time 1 true
      else (driver.requestReset .oneHz).notifyClients
    { checked with lastSyncTime := driver.tmsecClock }
  else if driver.syncDiff > MAX_TMSEC_SINCE_LAST_SYNC then
    if driver.board.syncdSet then (driver.requestReset .oneHz).notifyClients
    else driver.checkSoftTicker snapshot.unix_time.tmsecs snapshot.clock_time 1 true
  else if driver.lastStatus &&& notSynced = 0 then
    driver.checkSoftTicker snapshot.irig_time.tmsecs snapshot.clock_time 1 false
  else driver.checkSoftTicker snapshot.unix_time.tmsecs snapshot.clock_time 1 false

/-- The rates in the order of `enum irigClockRates`. -/
def rates : List IrigRate :=
  [.IRIG_0_1_HZ, .IRIG_1_HZ, .IRIG_2_HZ, .IRIG_4_HZ, .IRIG_5_HZ, .IRIG_10_HZ, .IRIG_20_HZ,
    .IRIG_25_HZ, .IRIG_50_HZ, .IRIG_100_HZ]

/-- The callbacks that are on a list. -/
def registered (driver : IrigDriver) : List IrigCallback := rates.flatMap driver.callbackLists

/-- `doResyncCallbacks`, with the callbacks in the order in which they are called -/
def doResyncCallbacks (driver : IrigDriver) : List IrigCallback :=
  rates.flatMap fun rate => (driver.callbackLists rate).filter IrigCallback.resync

/-- The locked section of a pass of the tasklet, with the reset if there is one. -/
def beginPass (driver : IrigDriver) (nloop count : ℕ) : IrigDriver × List ResetReport :=
  let next := { driver with board := driver.board.beginPass nloop count }
  if 0 < driver.board.pending100Hz ∧ driver.board.willReset = true then
    ({ next with ndtLast := 0, ndtNSecs := 0, requests := [] },
      [⟨driver.requests, driver.registered,
        if driver.board.notifyClients then driver.doResyncCallbacks else []⟩])
  else (next, [])

/-- `handlePendingCallbacks`: an entry that is removed can still be among those to be added. -/
def handlePendingCallbacks (driver : IrigDriver) : IrigDriver :=
  let adds := driver.pendingRemoves.foldl List.erase driver.pendingAdds
  { driver with
    callbackLists := fun rate =>
      (adds.filter fun callback => callback.rate = rate).reverse ++
        driver.pendingRemoves.foldl List.erase (driver.callbackLists rate)
    pendingAdds := []
    pendingRemoves := [] }

/-- The callbacks of a pass, of which only that of the driver itself is of interest. -/
def endPass (driver : IrigDriver) (nloop count : ℕ) : IrigDriver :=
  let handled := driver.handlePendingCallbacks
  let called :=
    if (IrigBoard.callbackLists count).contains .IRIG_1_HZ then handled.oneHzFunction else handled
  { called with board := called.board.endPass nloop count }

/-- One step, with the reset if it does one.  A step that cannot be taken does nothing. -/
def step (driver : IrigDriver) : DriverAction → IrigDriver × List ResetReport
  | .interrupt its uts status =>
      ({ driver with board := driver.board.isr its uts status, lastStatus := status }, [])
  | .watchdog ndt =>
      ({ driver with
          board := { driver.board with pending100Hz := driver.board.pending100Hz + ndt } }, [])
  | .setClock => (driver.requestReset .ioctl, [])
  | .register callback => ({ driver with pendingAdds := callback :: driver.pendingAdds }, [])
  | .unregister callback =>
      ({ driver with pendingRemoves := driver.pendingRemoves ++ [callback] }, [])
  | .schedule =>
      match driver.board.phase with
      | .idle =>
          ({ driver with
              board := { driver.board with phase := .looping 0 driver.board.count100Hz } }, [])
      | _ => (driver, [])
  | .beginPass =>
      match driver.board.phase with
      | .looping nloop count => driver.beginPass nloop count
      | _ => (driver, [])
  | .endPass =>
      match driver.board.phase with
      | .calling nloop count => (driver.endPass nloop count, [])
      | _ => (driver, [])

/-- The driver as the module sets it up. -/
def initial : IrigDriver where
  board := IrigBoard.initial
  lastStatus := 0x1f
  lastSyncTime := -1
  ndtLast := 0
  ndtNSecs := 0
  slews := fun _ => 0
  callbackLists := fun _ => []
  pendingAdds := []
  pendingRemoves := []
  requests := [.module]

/-- All resets of a run from the start. -/
def resets (actions : List DriverAction) : List ResetReport :=
  (answers step initial actions).flatten

/-! ## Who is notified -/

/-- `notifyClients` is set exactly if `oneHzFunction` itself asked for a reset. -/
def Consistent (driver : IrigDriver) : Prop :=
  driver.board.notifyClients = true ↔ .oneHz ∈ driver.requests

/-- The next step is a reset of the counters. -/
def ResetsNext (driver : IrigDriver) (action : DriverAction) : Prop :=
  action = .beginPass ∧ (∃ nloop count, driver.board.phase = .looping nloop count) ∧
    driver.board.resets

section Step

variable {driver : IrigDriver}

/-- What keeps the flag and the requests keeps them consistent. -/
theorem Consistent.of_same {driver other : IrigDriver} (hconsistent : driver.Consistent)
    (hnotify : other.board.notifyClients = driver.board.notifyClients)
    (hrequests : other.requests = driver.requests) : other.Consistent := by
  unfold Consistent
  rw [hnotify, hrequests]
  exact hconsistent

/-- A request that does not set the flag. -/
theorem Consistent.requestReset (hconsistent : driver.Consistent) {request : ResetRequest}
    (hother : request ≠ .oneHz) : (driver.requestReset request).Consistent := by
  unfold Consistent at hconsistent ⊢
  unfold IrigDriver.requestReset
  dsimp only
  rw [List.mem_cons, hconsistent]
  refine ⟨Or.inr, ?_⟩
  rintro (hsame | hmem)
  · exact absurd hsame.symm hother
  · exact hmem

/-- A request that sets it. -/
theorem consistent_notifyClients (driver : IrigDriver) :
    (driver.requestReset .oneHz).notifyClients.Consistent :=
  iff_of_true rfl List.mem_cons_self

theorem Consistent.checkSoftTicker (hconsistent : driver.Consistent)
    (newClock currClock scale : ℤ) (notify : Bool) :
    (driver.checkSoftTicker newClock currClock scale notify).Consistent := by
  unfold IrigDriver.checkSoftTicker
  dsimp only
  split
  · split
    · split
      · exact Consistent.requestReset (hconsistent.of_same rfl rfl) (by simp)
      · exact hconsistent.of_same rfl rfl
    · exact hconsistent.of_same rfl rfl
  · exact hconsistent.of_same rfl rfl

theorem Consistent.oneHzFunction (hconsistent : driver.Consistent) :
    driver.oneHzFunction.Consistent := by
  unfold IrigDriver.oneHzFunction
  dsimp only
  split
  · exact hconsistent
  · split
    · refine Consistent.of_same ?_ rfl rfl
      split
      · exact hconsistent.checkSoftTicker _ _ _ _
      · split
        · exact hconsistent.checkSoftTicker _ _ _ _
        · exact consistent_notifyClients driver
    · split
      · split
        · exact consistent_notifyClients driver
        · exact hconsistent.checkSoftTicker _ _ _ _
      · split
        · exact hconsistent.checkSoftTicker _ _ _ _
        · exact hconsistent.checkSoftTicker _ _ _ _

theorem Consistent.endPass (hconsistent : driver.Consistent) (nloop count : ℕ) :
    (driver.endPass nloop count).Consistent := by
  have hhandled : driver.handlePendingCallbacks.Consistent := hconsistent.of_same rfl rfl
  unfold IrigDriver.endPass
  refine Consistent.of_same ?_ rfl rfl
  split
  · exact hhandled.oneHzFunction
  · exact hhandled

theorem isr_notifyClients (board : IrigBoard) (its uts : Timespec) (status : UInt8) :
    (board.isr its uts status).notifyClients = board.notifyClients := by
  unfold IrigBoard.isr
  dsimp only
  split
  · split
    · rfl
    · rfl
  · split
    · rfl
    · rfl

theorem beginPass_notifyClients_of_resets {board : IrigBoard} (hresets : board.resets)
    (nloop count : ℕ) : (board.beginPass nloop count).notifyClients = false := by
  unfold IrigBoard.beginPass
  simp only [if_neg (not_le.mpr hresets.1)]
  split
  · rfl
  · next hnot => exact absurd hresets.2 hnot

theorem beginPass_notifyClients_of_not {board : IrigBoard} (hnot : ¬ board.resets)
    (nloop count : ℕ) :
    (board.beginPass nloop count).notifyClients = board.notifyClients := by
  unfold IrigBoard.beginPass
  by_cases hpending : board.pending100Hz ≤ 0
  · simp only [if_pos hpending]
  · simp only [if_neg hpending]
    split
    · next hreset => exact absurd ⟨not_le.mp hpending, hreset⟩ hnot
    · rfl

/-- The report of a reset. -/
def report (driver : IrigDriver) : ResetReport :=
  ⟨driver.requests, driver.registered,
    if .oneHz ∈ driver.requests then driver.registered.filter IrigCallback.resync else []⟩

theorem doResyncCallbacks_eq (driver : IrigDriver) :
    driver.doResyncCallbacks = driver.registered.filter IrigCallback.resync := by
  unfold doResyncCallbacks registered
  rw [List.filter_flatMap]

theorem beginPass_of_resets (hconsistent : driver.Consistent) (hresets : driver.board.resets)
    (nloop count : ℕ) :
    (driver.beginPass nloop count).1.Consistent ∧
      (driver.beginPass nloop count).2 = [driver.report] := by
  have hpass : driver.beginPass nloop count =
      ({ driver with
          board := driver.board.beginPass nloop count, ndtLast := 0, ndtNSecs := 0,
          requests := [] },
        [⟨driver.requests, driver.registered,
          if driver.board.notifyClients then driver.doResyncCallbacks else []⟩]) :=
    if_pos hresets
  rw [hpass]
  constructor
  · refine iff_of_false ?_ List.not_mem_nil
    dsimp only
    rw [beginPass_notifyClients_of_resets hresets]
    exact Bool.false_ne_true
  · unfold report
    unfold Consistent at hconsistent
    simp only [hconsistent, doResyncCallbacks_eq]

theorem beginPass_of_not (hconsistent : driver.Consistent) (hnot : ¬ driver.board.resets)
    (nloop count : ℕ) :
    (driver.beginPass nloop count).1.Consistent ∧ (driver.beginPass nloop count).2 = [] := by
  have hpass : driver.beginPass nloop count =
      ({ driver with board := driver.board.beginPass nloop count }, []) := if_neg hnot
  rw [hpass]
  exact ⟨hconsistent.of_same (beginPass_notifyClients_of_not hnot nloop count) rfl, rfl⟩

/-- What a step does: it keeps the flag consistent with the requests, and reports the reset if it is
one. -/
structure Stepped (driver : IrigDriver) (action : DriverAction) : Prop where
  consistent : (driver.step action).1.Consistent
  reset : driver.ResetsNext action → (driver.step action).2 = [driver.report]
  other : ¬ driver.ResetsNext action → (driver.step action).2 = []

theorem stepped_of_ne {action : DriverAction} (hne : action ≠ .beginPass)
    (hnext : (driver.step action).1.Consistent ∧ (driver.step action).2 = []) :
    driver.Stepped action :=
  ⟨hnext.1, fun hresets => absurd hresets.1 hne, fun _ => hnext.2⟩

/-- **One step.** -/
theorem Consistent.step (hconsistent : driver.Consistent) (action : DriverAction) :
    driver.Stepped action := by
  cases action with
  | interrupt its uts status =>
      exact stepped_of_ne (by simp) ⟨hconsistent.of_same (isr_notifyClients _ _ _ _) rfl, rfl⟩
  | watchdog ndt => exact stepped_of_ne (by simp) ⟨hconsistent.of_same rfl rfl, rfl⟩
  | setClock => exact stepped_of_ne (by simp) ⟨hconsistent.requestReset (by simp), rfl⟩
  | register callback => exact stepped_of_ne (by simp) ⟨hconsistent.of_same rfl rfl, rfl⟩
  | unregister callback => exact stepped_of_ne (by simp) ⟨hconsistent.of_same rfl rfl, rfl⟩
  | schedule =>
      apply stepped_of_ne (by simp)
      simp only [IrigDriver.step]
      split
      · exact ⟨hconsistent.of_same rfl rfl, rfl⟩
      · exact ⟨hconsistent, rfl⟩
  | beginPass =>
      cases hphase : driver.board.phase with
      | looping nloop count =>
          have hstep : driver.step .beginPass = driver.beginPass nloop count := by
            simp only [IrigDriver.step, hphase]
          by_cases hresets : driver.board.resets
          · obtain ⟨hnext, hreport⟩ := beginPass_of_resets hconsistent hresets nloop count
            rw [← hstep] at hnext hreport
            exact ⟨hnext, fun _ => hreport,
              fun hnot => absurd ⟨rfl, ⟨nloop, count, hphase⟩, hresets⟩ hnot⟩
          · obtain ⟨hnext, hreport⟩ := beginPass_of_not hconsistent hresets nloop count
            rw [← hstep] at hnext hreport
            exact ⟨hnext, fun hyes => absurd hyes.2.2 hresets, fun _ => hreport⟩
      | idle =>
          have hstep : driver.step .beginPass = (driver, []) := by
            simp only [IrigDriver.step, hphase]
          refine ⟨by rwa [hstep], ?_, fun _ => by rw [hstep]⟩
          rintro ⟨-, ⟨nloop, count, hlooping⟩, -⟩
          rw [hphase] at hlooping
          cases hlooping
      | calling nloop count =>
          have hstep : driver.step .beginPass = (driver, []) := by
            simp only [IrigDriver.step, hphase]
          refine ⟨by rwa [hstep], ?_, fun _ => by rw [hstep]⟩
          rintro ⟨-, ⟨nloop, count, hlooping⟩, -⟩
          rw [hphase] at hlooping
          cases hlooping
  | endPass =>
      apply stepped_of_ne (by simp)
      simp only [IrigDriver.step]
      split
      · exact ⟨hconsistent.endPass _ _, rfl⟩
      · exact ⟨hconsistent, rfl⟩

end Step

/-! ## Announced resets -/

/-- For a reset that `checkSoftTicker` asked for with notification there is a request by
`oneHzFunction` itself too, or there is nobody to notify. -/
def Heard (driver : IrigDriver) (action : DriverAction) : Prop :=
  driver.ResetsNext action → .softTicker true ∈ driver.requests →
    .oneHz ∈ driver.requests ∨ driver.registered.filter IrigCallback.resync = []

theorem announced_report_iff (driver : IrigDriver) :
    driver.report.Announced ↔
      (.softTicker true ∈ driver.requests →
        .oneHz ∈ driver.requests ∨ driver.registered.filter IrigCallback.resync = []) := by
  unfold ResetReport.Announced report
  dsimp only
  by_cases hown : ResetRequest.oneHz ∈ driver.requests
  · rw [if_pos hown]
    refine iff_of_true ⟨fun _ => rfl, ?_⟩ (fun _ => Or.inl hown)
    intro hnone
    cases hnone _ hown
  · rw [if_neg hown]
    constructor
    · rintro ⟨hcalled, -⟩ hticker
      exact Or.inr (hcalled hticker).symm
    · intro hheard
      refine ⟨fun hticker => ?_, fun _ => rfl⟩
      rcases hheard hticker with hyes | hnone
      · exact absurd hyes hown
      · exact hnone.symm

theorem forall_announced_iff {driver : IrigDriver} (hconsistent : driver.Consistent)
    (actions : List DriverAction) :
    (∀ report ∈ (answers step driver actions).flatten, report.Announced) ↔
      Along Heard step driver actions := by
  induction actions generalizing driver with
  | nil => simp [answers, Along]
  | cons action actions ih =>
      obtain ⟨hnext, hreset, hother⟩ := hconsistent.step action
      rw [answers, List.flatten_cons, List.forall_mem_append, ih hnext, Along]
      apply and_congr_left
      intro _
      unfold Heard
      by_cases hresets : driver.ResetsNext action
      · rw [hreset hresets, List.forall_mem_singleton, announced_report_iff]
        exact ⟨fun h _ => h, fun h => h hresets⟩
      · rw [hother hresets]
        exact iff_of_true (by simp) (fun h => absurd h hresets)

/-- **The resets are announced exactly if `oneHzFunction` itself has also asked for each of those
that `checkSoftTicker` asked for with notification, or nobody is to be notified.** -/
theorem resets_announced_iff (actions : List DriverAction) :
    (∀ report ∈ resets actions, report.Announced) ↔ Along Heard step initial actions :=
  forall_announced_iff (iff_of_false Bool.false_ne_true (by decide)) actions

/-- The time of a tick. -/
def atTick (n : ℕ) : Timespec := ⟨n / 100, n % 100 * 10000000, by omega⟩

/-- A client with a resync callback. -/
def client : IrigCallback := ⟨1, .IRIG_10_HZ, true⟩

/-- An interrupt at the time of a tick, with sync, and a run of the tasklet with one pass. -/
def tickActions (n : ℕ) : List DriverAction :=
  [.interrupt (atTick n) (atTick n) 0, .schedule, .beginPass, .endPass, .beginPass]

/-- The clocks jump by a second after the first tick and go on for four seconds. -/
def jump : List DriverAction :=
  .register client :: tickActions 95 ++ (List.range 406).flatMap fun n => tickActions (196 + n)

/-- `checkSoftTicker` asks for a reset, with notification, and the client is not notified. -/
theorem resets_jump_not_announced :
    ⟨[.softTicker true], [client], []⟩ ∈ resets jump ∧
      ¬ ∀ report ∈ resets jump, report.Announced := by
  have hresets : resets jump =
      [⟨[.module], [], []⟩, ⟨[.softTicker true], [client], []⟩] := by
    decide +kernel
  rw [hresets]
  refine ⟨by decide, ?_⟩
  intro hall
  have hannounced := hall ⟨[.softTicker true], [client], []⟩ (by decide)
  exact absurd (hannounced.1 (by decide)) (by decide)

end IrigDriver

end Nidas.Linux
