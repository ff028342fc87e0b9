import Nidas.Lib.CondVar
import Nidas.Lib.Runs

/-!
# The packets of the UDP relay

`PacketReader::loop` has two packets.  One of them is in the queue, for the writers, while the other
is received into.  When the reception is over, the new packet goes to the front of the queue and the
old one is taken from its back, before the lock is given up.

A reception that fails leaves the loop with the packet in its hands and never puts it back.
The queue then is empty whenever the lock is free, and after a second failure there is nothing to
take from it.  As long as no reception fails the queue is in one of a few shapes.
-/

namespace Nidas.Apps

open Lib

/-! ## The code -/

/-- Where the reader is.  With a packet it is receiving into it, has received it and is about to
lock, or has the lock again.  `undefined` is after `back()` of an empty queue. -/
inductive ReaderPoint where
  | opening
  | locking
  | popping
  | receiving (pkt : ℕ)
  | received (pkt : ℕ)
  | pushing (pkt : ℕ)
  | failed
  | undefined
  deriving DecidableEq

/-- Where a writer is: before its first lock, with the lock and about to wait, waiting, woken and
without the lock, or writing what it has taken from the queue, with the lock. -/
inductive WriterPoint where
  | starting
  | locked
  | waiting
  | woken
  | writing (pkt : Option ℕ)
  | done
  deriving DecidableEq

/-- Who has the lock of `_dataReady`. -/
inductive LockOwner where
  | nobody
  | reader
  | writer (place : ℕ)
  deriving DecidableEq

/-- The relay.  The first of `packets` is the front of the deque.  `newest` is the packet that was
last put into the queue after a reception. -/
structure UdpRelay where
  packets : List ℕ
  owner : LockOwner
  reader : ReaderPoint
  writers : List WriterPoint
  newest : Option ℕ
  deriving DecidableEq

/-- What can happen next. -/
inductive RelayAction where
  | openSocket
  | openFails
  | lock
  | popBack
  | receive
  | receiveFails
  | lockReceived
  | pushFront
  | reopen
  | newWriter
  | writerLocks (place : ℕ)
  | writerWaits (place : ℕ)
  | writerWakes (place : ℕ)
  | writerTakes (place : ℕ)
  | writerFails (place : ℕ)
  deriving DecidableEq

namespace UdpRelay

/-- Both packets are in the queue, nothing is locked. -/
def initial : UdpRelay :=
  { packets := [1, 0], owner := .nobody, reader := .opening, writers := [], newest := none }

/-- A step of the reader. -/
def readerStep (relay : UdpRelay) : RelayAction → Option UdpRelay
  | .openSocket =>
      if relay.reader = .opening then some { relay with reader := .locking } else none
  | .openFails =>
      -- an exception of the constructor: sleep and try again
      if relay.reader = .opening then some relay else none
  | .lock =>
      if relay.reader = .locking ∧ relay.owner = .nobody then
        some { relay with reader := .popping, owner := .reader }
      else none
  | .popBack =>
      if relay.reader = .popping then
        match relay.packets.getLast? with
        | some pkt =>
            some { relay with
              packets := relay.packets.dropLast
              owner := .nobody
              reader := .receiving pkt }
        | none => some { relay with reader := .undefined }
      else none
  | .receive =>
      match relay.reader with
      | .receiving pkt => some { relay with reader := .received pkt }
      | _ => none
  | .receiveFails =>
      match relay.reader with
      | .receiving _ => some { relay with reader := .failed }
      | _ => none
  | .lockReceived =>
      match relay.reader with
      | .received pkt =>
          if relay.owner = .nobody then
            some { relay with reader := .pushing pkt, owner := .reader }
          else none
      | _ => none
  | .pushFront =>
      match relay.reader with
      | .pushing pkt =>
          some { relay with
            packets := pkt :: relay.packets
            reader := .popping
            newest := some pkt
            writers := broadcast (· = .waiting) (fun _ => .woken) relay.writers }
      | _ => none
  | .reopen =>
      if relay.reader = .failed then some { relay with reader := .opening } else none
  | _ => none

/-- A step of a writer. -/
def writerStep (relay : UdpRelay) : RelayAction → Option UdpRelay
  | .newWriter => some { relay with writers := relay.writers ++ [.starting] }
  | .writerLocks place =>
      if relay.writers[place]? = some .starting ∧ relay.owner = .nobody then
        some { relay with
          owner := .writer place
          writers := relay.writers.set place .locked }
      else none
  | .writerWaits place =>
      match relay.writers[place]? with
      | some .locked | some (.writing _) =>
          if relay.owner = .writer place then
            some { relay with
              owner := .nobody
              writers := relay.writers.set place .waiting }
          else none
      | _ => none
  | .writerWakes place =>
      -- without a broadcast
      if relay.writers[place]? = some .waiting then
        some { relay with writers := relay.writers.set place .woken }
      else none
  | .writerTakes place =>
      if relay.writers[place]? = some .woken ∧ relay.owner = .nobody then
        some { relay with
          owner := .writer place
          writers := relay.writers.set place (.writing relay.packets.getLast?) }
      else none
  | .writerFails place =>
      match relay.writers[place]? with
      | some (.writing _) =>
          if relay.owner = .writer place then
            some { relay with
              owner := .nobody
              writers := relay.writers.set place .done }
          else none
      | _ => none
  | _ => none

/-- One step, if it can be taken. -/
def step (relay : UdpRelay) (action : RelayAction) : Option UdpRelay :=
  match relay.readerStep action with
  | some after => some after
  | none => relay.writerStep action

/-- The packet that the reader has in its hands. -/
def inHand (relay : UdpRelay) : Option ℕ :=
  match relay.reader with
  | .receiving pkt | .received pkt | .pushing pkt => some pkt
  | _ => none

/-- The packets are kept. -/
structure Kept (relay : UdpRelay) : Prop where
  /-- Each is in the queue or in the hands of the reader. -/
  packets : (relay.inHand.toList ++ relay.packets).Perm [1, 0]
  /-- `back()` has not been called on an empty queue. -/
  defined : relay.reader ≠ .undefined
  /-- What a writer takes when the lock is free is the newest packet. -/
  newest : relay.owner = .nobody → ∀ pkt, relay.newest = some pkt →
    relay.packets.getLast? = some pkt

/-! ## Without failing receptions -/

/-- One packet is in the hands of the reader, the other in the queue. -/
def Apart (relay : UdpRelay) (pkt : ℕ) : Prop :=
  ∃ other, relay.packets = [other] ∧ [pkt, other].Perm [1, 0] ∧
    (relay.newest = none ∨ relay.newest = some other)

/-- The shapes of the queue, by where the reader is. -/
def Shape (relay : UdpRelay) : Prop :=
  match relay.reader with
  | .opening | .locking => relay.packets = [1, 0] ∧ relay.newest = none
  | .popping =>
      relay.owner = .reader ∧ ∃ newer older, relay.packets = [newer, older] ∧
        [newer, older].Perm [1, 0] ∧ (relay.newest = none ∨ relay.newest = some newer)
  | .receiving pkt | .received pkt => relay.Apart pkt
  | .pushing pkt => relay.owner = .reader ∧ relay.Apart pkt
  | .failed | .undefined => False

theorem shape_initial : initial.Shape := ⟨rfl, rfl⟩

variable {relay after : UdpRelay} {action : RelayAction}

/-- The shapes keep the packets. -/
theorem Shape.kept (hshape : relay.Shape) : relay.Kept := by
  unfold Shape at hshape
  cases hreader : relay.reader with
  | opening | locking =>
      rw [hreader] at hshape
      obtain ⟨hpackets, hnewest⟩ := hshape
      refine ⟨by simp [inHand, hreader, hpackets], by simp [hreader], ?_⟩
      intro _ pkt hpkt
      rw [hnewest] at hpkt
      cases hpkt
  | popping =>
      rw [hreader] at hshape
      obtain ⟨howner, newer, older, hpackets, hperm, -⟩ := hshape
      refine ⟨?_, by simp [hreader], fun hfree => ?_⟩
      · simpa [inHand, hreader, hpackets] using hperm
      · rw [howner] at hfree
        cases hfree
  | receiving pkt | received pkt =>
      rw [hreader] at hshape
      obtain ⟨other, hpackets, hperm, hnewest⟩ := hshape
      refine ⟨?_, by simp [hreader], ?_⟩
      · simpa [inHand, hreader, hpackets] using hperm
      · intro _ pkt' hpkt
        rcases hnewest with hnone | hsome
        · rw [hnone] at hpkt
          cases hpkt
        · rw [hsome] at hpkt
          rw [hpackets, ← hpkt]
          rfl
  | pushing pkt =>
      rw [hreader] at hshape
      obtain ⟨howner, other, hpackets, hperm, -⟩ := hshape
      refine ⟨?_, by simp [hreader], fun hfree => ?_⟩
      · simpa [inHand, hreader, hpackets] using hperm
      · rw [howner] at hfree
        cases hfree
  | failed | undefined =>
      rw [hreader] at hshape
      exact hshape.elim

/-- A step of the reader keeps the shape, unless it is a reception that fails. -/
theorem Shape.readerStep (hshape : relay.Shape) (hfails : action ≠ .receiveFails)
    (hstep : relay.readerStep action = some after) : after.Shape := by
  unfold Shape at hshape
  cases action with
  | openSocket =>
      simp only [UdpRelay.readerStep] at hstep
      split at hstep
      · next hreader =>
          cases hstep
          rw [hreader] at hshape
          exact hshape
      · cases hstep
  | openFails =>
      simp only [UdpRelay.readerStep] at hstep
      split at hstep
      · cases hstep
        exact hshape
      · cases hstep
  | lock =>
      simp only [UdpRelay.readerStep] at hstep
      split at hstep
      · next hready =>
          cases hstep
          rw [hready.1] at hshape
          exact ⟨rfl, 1, 0, hshape.1, .refl _, .inl hshape.2⟩
      · cases hstep
  | popBack =>
      simp only [UdpRelay.readerStep] at hstep
      split at hstep
      · next hreader =>
          rw [hreader] at hshape
          obtain ⟨-, newer, older, hpackets, hperm, hnewest⟩ := hshape
          rw [hpackets] at hstep
          cases hstep
          exact ⟨newer, rfl, (List.Perm.swap _ _ _).trans hperm, hnewest⟩
      · cases hstep
  | receive =>
      simp only [UdpRelay.readerStep] at hstep
      split at hstep
      · next pkt hreader =>
          cases hstep
          rw [hreader] at hshape
          exact hshape
      · cases hstep
  | receiveFails => exact absurd rfl hfails
  | lockReceived =>
      simp only [UdpRelay.readerStep] at hstep
      split at hstep
      · next pkt hreader =>
          split at hstep
          · cases hstep
            rw [hreader] at hshape
            exact ⟨rfl, hshape⟩
          · cases hstep
      · cases hstep
  | pushFront =>
      simp only [UdpRelay.readerStep] at hstep
      split at hstep
      · next pkt hreader =>
          cases hstep
          rw [hreader] at hshape
          obtain ⟨howner, other, hpackets, hperm, -⟩ := hshape
          exact ⟨howner, pkt, other, congrArg (pkt :: ·) hpackets, hperm, .inr rfl⟩
      · cases hstep
  | reopen =>
      simp only [UdpRelay.readerStep] at hstep
      split at hstep
      · next hreader =>
          rw [hreader] at hshape
          exact hshape.elim
      · cases hstep
  | newWriter | writerLocks _ | writerWaits _ | writerWakes _ | writerTakes _ | writerFails _ =>
      cases hstep

/-- A step of a writer does not touch the queue, and the lock only if the reader does not have
it. -/
theorem writerStep_same (hstep : relay.writerStep action = some after) :
    after.packets = relay.packets ∧ after.reader = relay.reader ∧ after.newest = relay.newest ∧
      (relay.owner = .reader → after.owner = .reader) := by
  cases action with
  | newWriter =>
      cases hstep
      exact ⟨rfl, rfl, rfl, id⟩
  | writerLocks place | writerTakes place =>
      simp only [writerStep] at hstep
      split at hstep
      · next hready =>
          cases hstep
          exact ⟨rfl, rfl, rfl, fun howner => by rw [howner] at hready; cases hready.2⟩
      · cases hstep
  | writerWakes place =>
      simp only [writerStep] at hstep
      split at hstep
      · cases hstep
        exact ⟨rfl, rfl, rfl, id⟩
      · cases hstep
  | writerWaits place | writerFails place =>
      simp only [writerStep] at hstep
      split at hstep
      all_goals
        first
        | cases hstep
        | split at hstep
          · next hmine =>
              cases hstep
              exact ⟨rfl, rfl, rfl, fun howner => by rw [howner] at hmine; cases hmine⟩
          · cases hstep
  | openSocket | openFails | lock | popBack | receive | receiveFails | lockReceived | pushFront
  | reopen => cases hstep

theorem Shape.of_same (hshape : relay.Shape) (hpackets : after.packets = relay.packets)
    (hreader : after.reader = relay.reader) (hnewest : after.newest = relay.newest)
    (howner : relay.owner = .reader → after.owner = .reader) : after.Shape := by
  unfold Shape Apart at *
  rw [hpackets, hreader, hnewest]
  cases hpoint : relay.reader with
  | popping =>
      rw [hpoint] at hshape
      exact ⟨howner hshape.1, hshape.2⟩
  | pushing pkt =>
      rw [hpoint] at hshape
      exact ⟨howner hshape.1, hshape.2⟩
  | opening | locking | receiving pkt | received pkt | failed | undefined =>
      rw [hpoint] at hshape
      exact hshape

theorem Shape.step (hshape : relay.Shape) (hfails : action ≠ .receiveFails)
    (hstep : relay.step action = some after) : after.Shape := by
  unfold UdpRelay.step at hstep
  split at hstep
  · next after' hreader =>
      cases hstep
      exact hshape.readerStep hfails hreader
  · obtain ⟨hpackets, hreader, hnewest, howner⟩ := writerStep_same hstep
    exact hshape.of_same hpackets hreader hnewest howner

/-- **A reception that fails loses its packet.** -/
theorem Shape.not_kept (hshape : relay.Shape) (hstep : relay.step .receiveFails = some after) :
    ¬ after.Kept := by
  intro hkept
  unfold Shape at hshape
  simp only [UdpRelay.step, UdpRelay.readerStep, writerStep] at hstep
  cases hreader : relay.reader with
  | receiving pkt =>
      rw [hreader] at hshape hstep
      obtain ⟨other, hpackets, -⟩ := hshape
      cases hstep
      have hlength := hkept.packets.length_eq
      simp [inHand, hpackets] at hlength
  | opening | locking | popping | received pkt | pushing pkt | failed | undefined =>
      rw [hreader] at hstep
      cases hstep

/-! ## Runs -/

theorem shape_of_run {actions : List RelayAction} (hfails : .receiveFails ∉ actions)
    (hshape : relay.Shape) (hrun : runSteps UdpRelay.step relay actions = some after) :
    after.Shape := by
  induction actions generalizing relay with
  | nil =>
      cases hrun
      exact hshape
  | cons action rest ih =>
      rw [runSteps] at hrun
      split at hrun
      · next next hstep =>
          have hne : action ≠ .receiveFails := fun heq => hfails (by simp [heq])
          exact ih (fun hmem => hfails (List.mem_cons_of_mem _ hmem)) (hshape.step hne hstep) hrun
      · cases hrun

/-- A reception, with a writer that has been waiting and takes the packet. -/
def oneReception : List RelayAction :=
  [.openFails, .openSocket, .newWriter, .writerLocks 0, .writerWaits 0, .lock, .popBack, .receive,
    .lockReceived, .pushFront, .popBack, .writerTakes 0]

/-- Two receptions that fail, with the socket opened again after each. -/
def twoFailures : List RelayAction :=
  [.openSocket, .lock, .popBack, .receiveFails, .reopen, .openSocket, .lock, .popBack,
    .receiveFails, .reopen, .openSocket, .lock, .popBack]

end UdpRelay

end Nidas.Apps
