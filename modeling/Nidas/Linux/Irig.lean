import Mathlib.Data.List.Count
import Mathlib.Tactic.Ring
import Nidas.Lib.Runs

/-!
# Callbacks of the IRIG driver

The heartbeat interrupt counts the ticks that are pending, and a tasklet works them off: in every
pass of its loop it advances the software clock, or resets it, and runs the callbacks that are due.
Which ones are due it takes from a counter of its own, that wraps after ten seconds and is saved
between the runs of the tasklet.

The interrupts come in anywhere, and so do requests for a reset and corrections of the number of
pending ticks.  None of them touches the counter or the clock: between two passes the counter is
one tick ahead of the clock, and in a pass it is the tick of the clock.  A day has whole
tens of seconds, so midnight makes no difference.
-/

namespace Nidas.Linux

open Lib

/-! ## The code -/

/-- `enum irigClockRates`. -/
inductive IrigRate where
  | IRIG_0_1_HZ
  | IRIG_1_HZ
  | IRIG_2_HZ
  | IRIG_4_HZ
  | IRIG_5_HZ
  | IRIG_10_HZ
  | IRIG_20_HZ
  | IRIG_25_HZ
  | IRIG_50_HZ
  | IRIG_100_HZ
  deriving DecidableEq, Repr

/-- The time between two callbacks of the rate, in tenths of milliseconds. -/
def IrigRate.period : IrigRate → ℕ
  | IRIG_0_1_HZ => 100000
  | IRIG_1_HZ => 10000
  | IRIG_2_HZ => 5000
  | IRIG_4_HZ => 2500
  | IRIG_5_HZ => 2000
  | IRIG_10_HZ => 1000
  | IRIG_20_HZ => 500
  | IRIG_25_HZ => 400
  | IRIG_50_HZ => 200
  | IRIG_100_HZ => 100

/-- `TMSEC_PER_SOFT_TIC`, for a hundred interrupts a second. -/
def TMSEC_PER_SOFT_TIC : ℕ := 100

/-- The ticks between two callbacks of the rate. -/
def IrigRate.ticks (rate : IrigRate) : ℕ := rate.period / TMSEC_PER_SOFT_TIC

/-- `MAX_TASKLET_COUNTER`: ten seconds. -/
def MAX_TASKLET_COUNTER : ℕ := 1000

/-- Tenths of milliseconds in a day. -/
def tmsecsPerDay : ℕ := 864000000

/-- A time of the IRIG clock or the system clock. -/
structure Timespec where
  tv_sec : ℕ
  tv_nsec : ℕ
  nsec_lt : tv_nsec < 1000000000
  deriving DecidableEq

/-- `CLOCK_SYNC_NOT_OK | CLOCK_STATUS_NOSYNC`. -/
def notSynced : UInt8 := 0x20 ||| 0x01

/-- `struct clockSnapShot`. -/
structure ClockSnapShot where
  irig_time : Timespec
  unix_time : Timespec
  clock_time : ℕ
  statusOR : UInt8
  deriving DecidableEq

/-- Where the tasklet is: not running, at the head of its loop, or past the locked section of a
pass, with its local counters. -/
inductive TaskletPhase where
  | idle
  | looping (nloop count100Hz : ℕ)
  | calling (nloop count100Hz : ℕ)
  deriving DecidableEq

/-- A pass of the loop that is over: the software clock in it, and the callback lists that were
run. -/
structure Pass where
  clock : ℕ
  called : List IrigRate
  deriving DecidableEq

/-- The board, with the place where the tasklet is and the passes so far, the latest first. -/
structure IrigBoard where
  TMsecClockTicker : ℕ
  count100Hz : ℕ
  pending100Hz : ℤ
  max100HzBacklog : ℤ
  resetRequested : Bool
  notifyClients : Bool
  resetSnapshotDone : Bool
  resetSnapshot : ClockSnapShot
  syncdSet : Bool
  statusOR : UInt8
  doSnapShot : Bool
  askedSnapShot : Bool
  snapshot : ClockSnapShot
  TMsecClock : Bool → ℕ
  writeClock : Bool
  softwareClockResets : ℕ
  resyncs : ℕ
  phase : TaskletPhase
  passes : List Pass

namespace IrigBoard

/-- `setSoftTickers`: the software clock and the loop counter for a time. -/
def setSoftTickers (ts : Timespec) (round : Bool) : ℕ × ℕ :=
  let newClock := ts.tv_sec % 86400 * 10000 + ts.tv_nsec / 100000
  let newClock := if round then newClock + TMSEC_PER_SOFT_TIC / 2 else newClock
  let newClock := newClock - newClock % TMSEC_PER_SOFT_TIC
  let newClock := newClock % tmsecsPerDay
  (newClock, newClock / TMSEC_PER_SOFT_TIC % MAX_TASKLET_COUNTER)

/-- A reset is requested and the snapshot for it has been taken. -/
def willReset (board : IrigBoard) : Bool := board.resetRequested && board.resetSnapshotDone

/-- The current sync is OK and was OK when the snapshot was taken. -/
def synced (board : IrigBoard) : Bool :=
  board.statusOR &&& notSynced == 0 && board.resetSnapshot.statusOR &&& notSynced == 0

/-- Fix the clock and the loop counter: from the time registers with sync, else from the system
clock, rounded.  The second component is the counter. -/
def resetCounters (board : IrigBoard) : IrigBoard × ℕ :=
  let tickers :=
    if board.synced then setSoftTickers board.resetSnapshot.irig_time false
    else setSoftTickers board.resetSnapshot.unix_time true
  ({ board with
      TMsecClockTicker := tickers.1
      softwareClockResets := board.softwareClockResets + 1
      syncdSet := board.synced
      resyncs := if board.notifyClients then board.resyncs + 1 else board.resyncs
      notifyClients := false
      resetSnapshotDone := false
      resetRequested := false
      pending100Hz := 0 }, tickers.2)

/-- Advance the software clock. -/
def tick (board : IrigBoard) : IrigBoard :=
  { board with
    TMsecClockTicker := (board.TMsecClockTicker + TMSEC_PER_SOFT_TIC) % tmsecsPerDay }

/-- Write the clock that other modules read. -/
def publish (board : IrigBoard) : IrigBoard :=
  { board with
    TMsecClock := fun index =>
      if index = board.writeClock then board.TMsecClockTicker else board.TMsecClock index
    writeClock := !board.writeClock }

/-- The locked section of a pass, with the loop counter at the head of the loop. -/
def beginPass (board : IrigBoard) (nloop count : ℕ) : IrigBoard :=
  let count := if count = MAX_TASKLET_COUNTER then 0 else count
  if board.pending100Hz ≤ 0 then
    { board with phase := .idle, count100Hz := count }
  else
    let board :=
      { board with
        max100HzBacklog := max board.pending100Hz board.max100HzBacklog
        pending100Hz := board.pending100Hz - 1 }
    let (board, count) := if board.willReset then board.resetCounters else (board.tick, count)
    let board := board.publish
    let asks := !board.askedSnapShot && decide (count % 100 > 95) && decide (nloop = 0)
    { board with
      askedSnapShot := board.askedSnapShot || asks
      doSnapShot := board.doSnapShot || asks
      phase := .calling nloop count }

/-- The callback lists that a pass runs, in the order of the code with its jumps. -/
def callbackLists (count100Hz : ℕ) : List IrigRate :=
  .IRIG_100_HZ ::
  ((if count100Hz % 2 ≠ 0 then []
    else .IRIG_50_HZ :: if count100Hz % 4 ≠ 0 then [] else [.IRIG_25_HZ]) ++
  -- label `_5`
  if count100Hz % 5 ≠ 0 then []
  else .IRIG_20_HZ ::
    ((if count100Hz % 10 ≠ 0 then []
      else .IRIG_10_HZ :: if count100Hz % 20 ≠ 0 then [] else [.IRIG_5_HZ]) ++
    -- label `_25`
    if count100Hz % 25 ≠ 0 then []
    else .IRIG_4_HZ ::
      if count100Hz % 50 ≠ 0 then []
      else .IRIG_2_HZ ::
        if count100Hz % 100 ≠ 0 then []
        else .IRIG_1_HZ :: if count100Hz % 1000 ≠ 0 then [] else [.IRIG_0_1_HZ]))

/-- The callbacks of a pass, and back to the head of the loop. -/
def endPass (board : IrigBoard) (nloop count : ℕ) : IrigBoard :=
  { board with
    passes := ⟨board.TMsecClockTicker, callbackLists count⟩ :: board.passes
    askedSnapShot := board.askedSnapShot && !(callbackLists count).contains .IRIG_1_HZ
    phase := .looping (nloop + 1) (count + 1) }

/-- `pc104sg_isr`, for a heartbeat with the times of the two clocks and the status of the card. -/
def isr (board : IrigBoard) (its uts : Timespec) (status : UInt8) : IrigBoard :=
  let board := { board with statusOR := board.statusOR ||| status }
  let board :=
    if board.doSnapShot then
      { board with
        snapshot := ⟨its, uts, board.TMsecClockTicker, board.statusOR⟩
        statusOR := 0
        doSnapShot := false }
    else board
  let board :=
    if board.resetRequested then
      { board with
        resetSnapshot :=
          { board.resetSnapshot with
            irig_time := its
            unix_time := uts
            statusOR := board.statusOR }
        resetSnapshotDone := true
        -- in case the tasklet has gotten behind
        pending100Hz := 0 }
    else board
  { board with pending100Hz := board.pending100Hz + 1 }

end IrigBoard

/-- What can happen next: an interrupt, a correction of the pending ticks by the check of the
software clock or the watchdog, the request for a reset, and the steps of the tasklet. -/
inductive IrigAction where
  | interrupt (its uts : Timespec) (status : UInt8)
  | adjust (ndt : ℤ)
  | requestReset (notify : Bool)
  | schedule
  | beginPass
  | endPass

namespace IrigBoard

/-- One step, if it can be taken. -/
def step (board : IrigBoard) : IrigAction → Option IrigBoard
  | .interrupt its uts status => some (board.isr its uts status)
  | .adjust ndt => some { board with pending100Hz := board.pending100Hz + ndt }
  | .requestReset notify =>
      some { board with
        resetRequested := true
        notifyClients := board.notifyClients || notify }
  | .schedule =>
      match board.phase with
      | .idle => some { board with phase := .looping 0 board.count100Hz }
      | _ => none
  | .beginPass =>
      match board.phase with
      | .looping nloop count => some (board.beginPass nloop count)
      | _ => none
  | .endPass =>
      match board.phase with
      | .calling nloop count => some (board.endPass nloop count)
      | _ => none

/-! ## The lists of a pass -/

/-- The rates in the order of the code. -/
def allRates : List IrigRate :=
  [.IRIG_100_HZ, .IRIG_50_HZ, .IRIG_25_HZ, .IRIG_20_HZ, .IRIG_10_HZ, .IRIG_5_HZ, .IRIG_4_HZ,
    .IRIG_2_HZ, .IRIG_1_HZ, .IRIG_0_1_HZ]

/-- The rate is due at a count. -/
def due (count : ℕ) (rate : IrigRate) : Bool := count % rate.ticks = 0

/-- A jump over rates that are slower than the one it depends on. -/
theorem filter_due_cons {count : ℕ} (ticks : ℕ) (rate : IrigRate) (slower : List IrigRate)
    (hticks : rate.ticks = ticks) (hslower : ∀ other ∈ slower, ticks ∣ other.ticks) :
    (if count % ticks ≠ 0 then [] else rate :: slower.filter (due count)) =
      (rate :: slower).filter (due count) := by
  by_cases hdue : count % ticks = 0
  · have htrue : due count rate = true := by simp [due, hticks, hdue]
    rw [if_neg (not_not.mpr hdue), List.filter_cons_of_pos htrue]
  · have hfalse : ¬ due count rate = true := by simp [due, hticks, hdue]
    have hnil : slower.filter (due count) = [] := by
      rw [List.filter_eq_nil_iff]
      intro other hmem hother
      have hother : count % other.ticks = 0 := by simpa [due] using hother
      apply hdue
      exact Nat.mod_eq_zero_of_dvd ((hslower other hmem).trans (Nat.dvd_of_mod_eq_zero hother))
    rw [if_pos hdue, List.filter_cons_of_neg hfalse, hnil]

/-- The jumps leave out what is not due and nothing else. -/
theorem callbackLists_eq_filter (count : ℕ) :
    callbackLists count = allRates.filter (due count) := by
  have hfast : (if count % 2 ≠ 0 then []
      else .IRIG_50_HZ :: if count % 4 ≠ 0 then [] else [.IRIG_25_HZ]) =
      [IrigRate.IRIG_50_HZ, .IRIG_25_HZ].filter (due count) := by
    rw [← filter_due_cons 2 _ _ rfl (by decide), ← filter_due_cons 4 _ _ rfl (by decide)]
    rfl
  have hmiddle : (if count % 10 ≠ 0 then []
      else .IRIG_10_HZ :: if count % 20 ≠ 0 then [] else [.IRIG_5_HZ]) =
      [IrigRate.IRIG_10_HZ, .IRIG_5_HZ].filter (due count) := by
    rw [← filter_due_cons 10 _ _ rfl (by decide), ← filter_due_cons 20 _ _ rfl (by decide)]
    rfl
  have hslow : (if count % 25 ≠ 0 then []
      else .IRIG_4_HZ ::
        if count % 50 ≠ 0 then []
        else .IRIG_2_HZ ::
          if count % 100 ≠ 0 then []
          else .IRIG_1_HZ :: if count % 1000 ≠ 0 then [] else [.IRIG_0_1_HZ]) =
      [IrigRate.IRIG_4_HZ, .IRIG_2_HZ, .IRIG_1_HZ, .IRIG_0_1_HZ].filter (due count) := by
    rw [← filter_due_cons 25 _ _ rfl (by decide), ← filter_due_cons 50 _ _ rfl (by decide),
      ← filter_due_cons 100 _ _ rfl (by decide), ← filter_due_cons 1000 _ _ rfl (by decide)]
    rfl
  have hhundred : due count .IRIG_100_HZ = true := by
    have hticks : IrigRate.IRIG_100_HZ.ticks = 1 := rfl
    simp [due, hticks, Nat.mod_one]
  unfold callbackLists allRates
  rw [hfast, hmiddle, hslow, ← List.filter_append, filter_due_cons 5 _ _ rfl (by decide),
    ← List.filter_append, List.filter_cons_of_pos hhundred]
  rfl

theorem count_callbackLists (count : ℕ) (rate : IrigRate) :
    (callbackLists count).count rate = if due count rate then 1 else 0 := by
  rw [callbackLists_eq_filter]
  split
  · next hdue =>
      rw [List.count_filter hdue]
      cases rate <;> rfl
  · next hnot =>
      apply List.count_eq_zero_of_not_mem
      intro hmem
      exact hnot (List.mem_filter.mp hmem).2

/-! ## The counter and the clock -/

/-- The counter is the tick of a time. -/
def InPhase (clock count : ℕ) : Prop :=
  TMSEC_PER_SOFT_TIC ∣ clock ∧ count = clock / TMSEC_PER_SOFT_TIC % MAX_TASKLET_COUNTER

/-- At the tick of a time a rate is due if the time is a multiple of its period. -/
theorem due_iff {clock count : ℕ} (hphase : InPhase clock count) (rate : IrigRate) :
    due count rate = true ↔ rate.period ∣ clock := by
  obtain ⟨⟨tick, rfl⟩, rfl⟩ := hphase
  have hperiod : rate.period = TMSEC_PER_SOFT_TIC * rate.ticks := by cases rate <;> rfl
  have hmax : rate.ticks ∣ MAX_TASKLET_COUNTER := by cases rate <;> decide
  have hpos : 0 < TMSEC_PER_SOFT_TIC := by decide
  rw [hperiod, Nat.mul_dvd_mul_iff_left hpos, Nat.mul_div_cancel_left _ hpos]
  unfold due
  rw [decide_eq_true_iff, Nat.mod_mod_of_dvd _ hmax]
  exact (Nat.dvd_iff_mod_eq_zero).symm

/-- What holds between the counter and the clock, wherever the tasklet is. -/
structure InStep (board : IrigBoard) : Prop where
  clock_dvd : TMSEC_PER_SOFT_TIC ∣ board.TMsecClockTicker
  idle : board.phase = .idle →
    board.count100Hz = (board.TMsecClockTicker / TMSEC_PER_SOFT_TIC + 1) % MAX_TASKLET_COUNTER
  looping : ∀ nloop count, board.phase = .looping nloop count → count ≤ MAX_TASKLET_COUNTER ∧
    count % MAX_TASKLET_COUNTER =
      (board.TMsecClockTicker / TMSEC_PER_SOFT_TIC + 1) % MAX_TASKLET_COUNTER
  calling : ∀ nloop count, board.phase = .calling nloop count →
    InPhase board.TMsecClockTicker count

/-- Steps that leave the clock, the counter and the tasklet alone keep them in step. -/
theorem InStep.of_same {board after : IrigBoard} (hin : InStep board)
    (hclock : after.TMsecClockTicker = board.TMsecClockTicker)
    (hcount : after.count100Hz = board.count100Hz) (hphase : after.phase = board.phase) :
    InStep after where
  clock_dvd := by
    rw [hclock]
    exact hin.clock_dvd
  idle := by
    rw [hclock, hcount, hphase]
    exact hin.idle
  looping := by
    rw [hclock, hphase]
    exact hin.looping
  calling := by
    rw [hclock, hphase]
    exact hin.calling

theorem isr_same (board : IrigBoard) (its uts : Timespec) (status : UInt8) :
    (board.isr its uts status).TMsecClockTicker = board.TMsecClockTicker ∧
      (board.isr its uts status).count100Hz = board.count100Hz ∧
      (board.isr its uts status).phase = board.phase ∧
      (board.isr its uts status).passes = board.passes := by
  unfold isr
  simp only
  split <;> split <;> exact ⟨rfl, rfl, rfl, rfl⟩

/-- A reset sets the clock and the counter to the same time. -/
theorem inPhase_setSoftTickers (ts : Timespec) (round : Bool) :
    InPhase (setSoftTickers ts round).1 (setSoftTickers ts round).2 := by
  refine ⟨?_, rfl⟩
  simp only [setSoftTickers, TMSEC_PER_SOFT_TIC, tmsecsPerDay]
  split <;> omega

theorem inPhase_resetCounters (board : IrigBoard) :
    InPhase board.resetCounters.1.TMsecClockTicker board.resetCounters.2 := by
  unfold resetCounters
  dsimp only
  split
  · exact inPhase_setSoftTickers _ _
  · exact inPhase_setSoftTickers _ _

/-- The state that a pass leaves when there is something to do. -/
theorem beginPass_calling {board : IrigBoard} {nloop count : ℕ} (hpending : 0 < board.pending100Hz)
    (hphase : board.willReset = true ∨
      InPhase ((board.TMsecClockTicker + TMSEC_PER_SOFT_TIC) % tmsecsPerDay)
        (if count = MAX_TASKLET_COUNTER then 0 else count)) :
    ∃ count', (board.beginPass nloop count).phase = .calling nloop count' ∧
      InPhase (board.beginPass nloop count).TMsecClockTicker count' ∧
      (board.beginPass nloop count).passes = board.passes := by
  unfold beginPass
  simp only [if_neg (not_le.mpr hpending)]
  split
  · next hreset => exact ⟨_, rfl, inPhase_resetCounters _, rfl⟩
  · next hnot =>
      rcases hphase with hreset | hphase
      · exact absurd hreset hnot
      · exact ⟨_, rfl, hphase, rfl⟩

theorem inStep_of_calling {board : IrigBoard} {nloop count : ℕ}
    (hphase : board.phase = .calling nloop count) (hin : InPhase board.TMsecClockTicker count) :
    InStep board where
  clock_dvd := hin.1
  idle := by simp [hphase]
  looping := by simp [hphase]
  calling := by
    intro nloop' count' hcalling
    rw [hphase] at hcalling
    cases hcalling
    exact hin

/-- The head of the loop, from a state in step. -/
theorem InStep.beginPass {board : IrigBoard} {nloop count : ℕ} (hin : InStep board)
    (hphase : board.phase = .looping nloop count) :
    InStep (board.beginPass nloop count) ∧
      (board.beginPass nloop count).passes = board.passes := by
  obtain ⟨hle, hcount⟩ := hin.looping nloop count hphase
  have hdvd := hin.clock_dvd
  by_cases hpending : 0 < board.pending100Hz
  · have hnext : InPhase ((board.TMsecClockTicker + TMSEC_PER_SOFT_TIC) % tmsecsPerDay)
        (if count = MAX_TASKLET_COUNTER then 0 else count) := by
      unfold InPhase
      unfold TMSEC_PER_SOFT_TIC MAX_TASKLET_COUNTER tmsecsPerDay at *
      constructor
      · omega
      · split <;> omega
    obtain ⟨count', hcalling, hin', hpasses⟩ := beginPass_calling hpending (.inr hnext)
    exact ⟨inStep_of_calling hcalling hin', hpasses⟩
  · unfold IrigBoard.beginPass
    simp only [if_pos (not_lt.mp hpending)]
    refine ⟨⟨hdvd, fun _ => ?_, by simp, by simp⟩, trivial⟩
    dsimp only
    unfold MAX_TASKLET_COUNTER at *
    split <;> omega

/-- The callbacks of a pass, from a state in step. -/
theorem InStep.endPass {board : IrigBoard} {nloop count : ℕ} (hin : InStep board)
    (hphase : board.phase = .calling nloop count) : InStep (board.endPass nloop count) := by
  obtain ⟨hdvd, hcount⟩ := hin.calling nloop count hphase
  refine ⟨hdvd, by simp [IrigBoard.endPass], ?_, by simp [IrigBoard.endPass]⟩
  intro nloop' count' hlooping
  have hcount' : count' = count + 1 := by
    simp only [IrigBoard.endPass, TaskletPhase.looping.injEq] at hlooping
    exact hlooping.2.symm
  dsimp only [IrigBoard.endPass]
  rw [hcount', hcount]
  unfold MAX_TASKLET_COUNTER
  omega

/-- A pass ran the lists that are due at its clock, each once. -/
def CallsDue (pass : Pass) : Prop :=
  ∀ rate : IrigRate, pass.called.count rate = if rate.period ∣ pass.clock then 1 else 0

theorem callsDue_callbackLists {clock count : ℕ} (hin : InPhase clock count) :
    CallsDue ⟨clock, callbackLists count⟩ := by
  intro rate
  rw [count_callbackLists]
  simp only [due_iff hin]

/-! ## Runs -/

/-- One step keeps the counter in step with the clock, and a pass that ends ran what is due. -/
theorem InStep.step {board after : IrigBoard} {action : IrigAction} (hin : InStep board)
    (hstep : board.step action = some after) :
    InStep after ∧
      (after.passes = board.passes ∨
        ∃ pass, CallsDue pass ∧ after.passes = pass :: board.passes) := by
  cases action with
  | interrupt its uts status =>
      obtain ⟨hclock, hcount, hphase, hpasses⟩ := isr_same board its uts status
      cases hstep
      exact ⟨hin.of_same hclock hcount hphase, .inl hpasses⟩
  | adjust ndt =>
      cases hstep
      exact ⟨hin.of_same rfl rfl rfl, .inl rfl⟩
  | requestReset notify =>
      cases hstep
      exact ⟨hin.of_same rfl rfl rfl, .inl rfl⟩
  | schedule =>
      simp only [IrigBoard.step] at hstep
      split at hstep
      · next hidle =>
          cases hstep
          refine ⟨⟨hin.clock_dvd, by simp, ?_, by simp⟩, .inl rfl⟩
          intro nloop count hlooping
          have hcount : count = board.count100Hz := by
            simp only [TaskletPhase.looping.injEq] at hlooping
            exact hlooping.2.symm
          rw [hcount, hin.idle hidle]
          unfold MAX_TASKLET_COUNTER
          dsimp only
          omega
      · cases hstep
  | beginPass =>
      simp only [IrigBoard.step] at hstep
      split at hstep
      · next nloop count hlooping =>
          cases hstep
          obtain ⟨hnext, hpasses⟩ := hin.beginPass hlooping
          exact ⟨hnext, .inl hpasses⟩
      · cases hstep
  | endPass =>
      simp only [IrigBoard.step] at hstep
      split at hstep
      · next nloop count hcalling =>
          cases hstep
          refine ⟨hin.endPass hcalling, .inr ⟨_, ?_, rfl⟩⟩
          exact callsDue_callbackLists (hin.calling nloop count hcalling)
      · cases hstep

/-- The board is in step, and the passes since a state ran what is due. -/
structure PassesDue (after board : IrigBoard) : Prop where
  inStep : InStep board
  passes : ∃ passes, board.passes = passes ++ after.passes ∧ ∀ pass ∈ passes, CallsDue pass

theorem PassesDue.step {after board next : IrigBoard} {action : IrigAction}
    (hsince : PassesDue after board) (hstep : board.step action = some next) :
    PassesDue after next := by
  obtain ⟨hin, passes, hpasses, hdue⟩ := hsince
  obtain ⟨hnext, hsame | ⟨pass, hcalls, hnew⟩⟩ := hin.step hstep
  · exact ⟨hnext, passes, hsame.trans hpasses, hdue⟩
  · refine ⟨hnext, pass :: passes, by rw [hnew, hpasses, List.cons_append], ?_⟩
    intro other hmem
    rcases List.mem_cons.mp hmem with rfl | hmem
    · exact hcalls
    · exact hdue other hmem

/-- The pass that begins next resets the counters. -/
def resets (board : IrigBoard) : Prop := 0 < board.pending100Hz ∧ board.willReset = true

/-- **The callbacks keep phase with the clock.**  From a pass on that resets the counters, whatever
the state before it was, in every pass the counter is the tick of the software clock, and the list
of a rate is run, once, exactly if the clock is a multiple of its period. -/
theorem callbacks_in_phase {before after board : IrigBoard} (hreset : before.resets)
    (hpass : before.step .beginPass = some after) (hrun : Reaches IrigBoard.step after board) :
    (∀ nloop count, board.phase = .calling nloop count →
      InPhase board.TMsecClockTicker count) ∧
    ∃ passes, board.passes = passes ++ after.passes ∧ ∀ pass ∈ passes, CallsDue pass := by
  have hstart : InStep after := by
    simp only [IrigBoard.step] at hpass
    split at hpass
    · cases hpass
      obtain ⟨count', hcalling, hin, -⟩ := beginPass_calling hreset.1 (.inl hreset.2)
      exact inStep_of_calling hcalling hin
    · cases hpass
  have hsince : PassesDue after board := by
    apply hrun.invariant
    · exact ⟨hstart, [], rfl, by simp⟩
    · intro current action next hcurrent hstep
      exact hcurrent.step hstep
  exact ⟨hsince.inStep.calling, hsince.passes⟩

/-- The board as the module sets it up. -/
def initial : IrigBoard :=
  { TMsecClockTicker := 0
    count100Hz := 0
    pending100Hz := 0
    max100HzBacklog := 0
    resetRequested := true
    notifyClients := false
    resetSnapshotDone := false
    resetSnapshot := ⟨⟨0, 0, by decide⟩, ⟨0, 0, by decide⟩, 0, 0⟩
    syncdSet := false
    statusOR := 0
    doSnapShot := false
    askedSnapShot := false
    snapshot := ⟨⟨0, 0, by decide⟩, ⟨0, 0, by decide⟩, 0, 0⟩
    TMsecClock := fun _ => 0
    writeClock := true
    softwareClockResets := 0
    resyncs := 0
    phase := .idle
    passes := [] }

/-- The last tick of a day. -/
def lastTick : Timespec := ⟨86399, 990000000, by decide⟩

/-- The tasklet at the head of its loop, after the first interrupt at the last tick of a day. -/
def firstPass : IrigBoard :=
  { initial.isr lastTick lastTick 0 with phase := .looping 0 0 }

/-- The pass that resets the counters, and the one after midnight. -/
theorem callbacks_in_phase_midnight :
    ∃ after board, firstPass.step .beginPass = some after ∧
      Reaches IrigBoard.step after board ∧
      board.passes.map Pass.clock = [0, 863999900] ∧
      ∃ passes, board.passes = passes ++ after.passes ∧ ∀ pass ∈ passes, CallsDue pass := by
  let after := firstPass.beginPass 0 0
  let board := ((after.endPass 0 999).isr lastTick lastTick 0).beginPass 1 1000 |>.endPass 1 0
  have hpass : firstPass.step .beginPass = some after := rfl
  have hrun : Reaches IrigBoard.step after board :=
    ⟨[.endPass, .interrupt lastTick lastTick 0, .beginPass, .endPass], rfl⟩
  have hresets : firstPass.resets := by
    unfold resets
    decide
  have hclocks : board.passes.map Pass.clock = [0, 863999900] := by decide +kernel
  exact ⟨after, board, hpass, hrun, hclocks, (callbacks_in_phase hresets hpass hrun).2⟩

end IrigBoard

end Nidas.Linux
