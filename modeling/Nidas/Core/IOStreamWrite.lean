import Mathlib.Algebra.GroupWithZero.Nat
import Mathlib.Data.List.Basic
import Mathlib.Tactic.Common
import Nidas.Core.Sample

/-!
# Buffered output

The writing side of `IOStream` (`IOStream.cc`).  The buffer is kept as the index of
`_tail` in it and the bytes between `_tail` and `_head`; `sent` is what the channel
has accepted so far, which the code does not keep.  The channel is given by its
answer to each `write`, counted from the first one.

Everything that is done to the buffer leaves `sent` followed by the buffered bytes
alone (`contents`), except for the one place where the user buffers are copied in,
and these are copied at once or not at all.  The only step that could lose bytes is
`reallocateBuffer`, which truncates; it is called only when the user buffers are longer
than the whole buffer, and what waits in the buffer always fits (`Fits`).
-/

namespace Nidas.Core

/-- What `IOChannel::write` does: it accepts a number of bytes, or throws an
`IOException`, whose errno is `EAGAIN` or `EWOULDBLOCK` or another one. -/
inductive WriteAnswer where
  | accepted (count : ℕ)
  | wouldBlock
  | error
  deriving DecidableEq, Repr

/-- The members of an `IOStream` that writing uses, what the channel has accepted, and
the number of `IOChannel::write` calls so far. -/
structure OutputStream where
  buflen : ℕ
  tail : ℕ := 0
  bytes : List UInt8 := []
  nbytesOut : ℤ := 0
  sent : List UInt8 := []
  writes : ℕ := 0
  deriving DecidableEq, Repr

namespace OutputStream

/-! ## The model -/

/-- The `IOStream` constructor: the buffer has twice the length asked for. -/
def create (blen : ℕ) : OutputStream where
  buflen := blen * 2

/-- The space behind `_head`. -/
def space (io : OutputStream) : ℕ := io.buflen - (io.tail + io.bytes.length)

/-- `_halflen` -/
def halflen (io : OutputStream) : ℕ := io.buflen / 2

/-- `IOStream::reallocateBuffer` on a buffer that exists. -/
def reallocateBuffer (len : ℕ) (io : OutputStream) : OutputStream :=
  -- will silently lose data if len is too small
  { io with buflen := len, tail := 0, bytes := io.bytes.take len }

/-- `memmove` of the waiting bytes down to the start of the buffer. -/
def shiftDown (io : OutputStream) : OutputStream := { io with tail := 0 }

/-- Copying the user buffers to `_head`. -/
def copyIn (iov : List (List UInt8)) (io : OutputStream) : OutputStream :=
  { io with bytes := io.bytes ++ iov.flatten }

/-- `_tail += l`, with the buffer reset once it is empty. -/
def advance (l : ℕ) (io : OutputStream) : OutputStream :=
  { io with
    sent := io.sent ++ io.bytes.take l
    bytes := io.bytes.drop l
    tail := if io.bytes.length ≤ l then 0 else io.tail + l
    -- addNumOutputBytes takes an int
    nbytesOut := io.nbytesOut + Int.bmod l (2 ^ 32)
    writes := io.writes + 1 }

/-- `IOChannel::write` of all bytes of the buffer, and the handler of its exception:
false when the exception is thrown on. -/
def writeOut (channel : ℕ → WriteAnswer) (io : OutputStream) : Bool × OutputStream :=
  match channel io.writes with
  | .accepted count => (true, io.advance (min count io.bytes.length))
  | .wouldBlock => (true, io.advance 0)
  | .error => (false, { io with writes := io.writes + 1 })

/-- One turn of the loop in `IOStream::write`: whether an exception was thrown on, and
whether the user buffers are still waiting (`nbufs > 0`). -/
structure Attempt where
  thrown : Bool
  waiting : Bool
  io : OutputStream
  deriving DecidableEq, Repr

/-- `tlen`, the total length of the user buffers. -/
def totalLength (iov : List (List UInt8)) : ℕ := (iov.map List.length).sum

/-- If there's not space in the buffer, but we can make some, do it now. -/
def makeSpace (tlen : ℕ) (io : OutputStream) : OutputStream :=
  if io.space < tlen ∧ io.bytes.length + tlen ≤ io.buflen ∧ io.tail ≠ 0 then io.shiftDown else io

/-- The writing part of one attempt. -/
def writeIfNeeded (channel : ℕ → WriteAnswer) (flush waiting : Bool) (io : OutputStream) :
    Attempt :=
  if waiting = true ∨ io.halflen ≤ io.bytes.length ∨ flush = true then
    let (returned, io) := io.writeOut channel
    ⟨!returned, waiting, io⟩
  else ⟨false, waiting, io⟩

/-- One turn of the loop in `IOStream::write`. -/
def attempt (channel : ℕ → WriteAnswer) (iov : List (List UInt8)) (flush waiting : Bool)
    (io : OutputStream) : Attempt :=
  let io := io.makeSpace (totalLength iov)
  if totalLength iov ≤ io.space then (io.copyIn iov).writeIfNeeded channel flush false
  else io.writeIfNeeded channel flush waiting

/-- The loop of `IOStream::write`, with the number of attempts left: what is returned, or
none for an exception. -/
def attempts (channel : ℕ → WriteAnswer) (iov : List (List UInt8)) (flush : Bool) :
    ℕ → Bool → OutputStream → Option ℕ × OutputStream
  | 0, waiting, io => (some (if waiting then 0 else totalLength iov), io)
  | left + 1, waiting, io =>
      let turn := io.attempt channel iov flush waiting
      if turn.thrown then (none, turn.io)
      else if turn.waiting then attempts channel iov flush left turn.waiting turn.io
      else (some (totalLength iov), turn.io)

/-- `IOStream::write` -/
def write (channel : ℕ → WriteAnswer) (iov : List (List UInt8)) (flush : Bool)
    (io : OutputStream) : Option ℕ × OutputStream :=
  let io := if io.buflen < totalLength iov then io.reallocateBuffer (totalLength iov) else io
  attempts channel iov flush 2 (decide (iov ≠ [])) io

/-- The loop of `IOStream::flush`, with the number of tries left: false for an
exception. -/
def flushLoop (channel : ℕ → WriteAnswer) : ℕ → OutputStream → Bool × OutputStream
  | 0, io => (true, io)
  | left + 1, io =>
      if io.bytes = [] then (true, io)
      else
        match io.writeOut channel with
        | (true, io) => flushLoop channel left io
        | (false, io) => (false, io)

/-- `IOStream::flush` -/
def flush (channel : ℕ → WriteAnswer) (io : OutputStream) : Bool × OutputStream :=
  flushLoop channel 5 io

/-- A call of the user. -/
inductive Call where
  | write (iov : List (List UInt8)) (flush : Bool)
  | flush
  deriving DecidableEq, Repr

/-- A call that was made: what it returned (none for an exception, zero for `flush`) and
the stream before and after it. -/
structure Done where
  call : Call
  result : Option ℕ
  before : OutputStream
  after : OutputStream
  deriving DecidableEq, Repr

/-- One call. -/
def perform (channel : ℕ → WriteAnswer) (call : Call) (io : OutputStream) : Done :=
  match call with
  | .write iov flush =>
      let (result, after) := io.write channel iov flush
      ⟨call, result, io, after⟩
  | .flush =>
      let (returned, after) := io.flush channel
      ⟨call, if returned then some 0 else none, io, after⟩

/-- The calls, one after the other, and the stream after the last one. -/
def performAll (channel : ℕ → WriteAnswer) : List Call → OutputStream → List Done × OutputStream
  | [], io => ([], io)
  | call :: calls, io =>
      let done := io.perform channel call
      let (later, io) := performAll channel calls done.after
      (done :: later, io)

/-- What a call has written: the contents of its user buffers when it is a write that
returned their total length. -/
def Done.written (done : Done) : List UInt8 :=
  match done.call with
  | .write iov _ => if done.result = some (totalLength iov) then iov.flatten else []
  | .flush => []

/-- The bytes accepted by the channel, followed by those still in the buffer. -/
def contents (io : OutputStream) : List UInt8 := io.sent ++ io.bytes

/-- What waits in the buffer lies inside it. -/
def Fits (io : OutputStream) : Prop := io.tail + io.bytes.length ≤ io.buflen

/-! ## The pieces of an attempt -/

theorem totalLength_eq (iov : List (List UInt8)) : totalLength iov = iov.flatten.length := by
  rw [totalLength, List.length_flatten]

@[simp]
theorem contents_advance (l : ℕ) (io : OutputStream) : (io.advance l).contents = io.contents := by
  simp [contents, advance]

theorem Fits.advance {io : OutputStream} (h : io.Fits) (l : ℕ) : (io.advance l).Fits := by
  unfold Fits OutputStream.advance at *
  simp only [List.length_drop]
  split_ifs <;> omega

theorem contents_writeOut (channel : ℕ → WriteAnswer) (io : OutputStream) :
    (io.writeOut channel).2.contents = io.contents := by
  unfold writeOut
  cases channel io.writes with
  | accepted count => apply contents_advance
  | wouldBlock => apply contents_advance
  | error => rfl

theorem Fits.writeOut {io : OutputStream} (h : io.Fits) (channel : ℕ → WriteAnswer) :
    (io.writeOut channel).2.Fits := by
  unfold OutputStream.writeOut
  cases channel io.writes with
  | accepted count => apply h.advance
  | wouldBlock => apply h.advance
  | error => exact h

theorem writeOut_returned {channel : ℕ → WriteAnswer} (hchannel : ∀ n, channel n ≠ .error)
    (io : OutputStream) : (io.writeOut channel).1 = true := by
  unfold writeOut
  cases hanswer : channel io.writes with
  | accepted count => rfl
  | wouldBlock => rfl
  | error => exact absurd hanswer (hchannel _)

@[simp]
theorem contents_makeSpace (tlen : ℕ) (io : OutputStream) :
    (io.makeSpace tlen).contents = io.contents := by
  unfold makeSpace
  split_ifs <;> rfl

theorem Fits.makeSpace {io : OutputStream} (h : io.Fits) (tlen : ℕ) : (io.makeSpace tlen).Fits := by
  unfold OutputStream.makeSpace
  split_ifs with hspace
  · unfold Fits shiftDown
    dsimp only
    omega
  · exact h

@[simp]
theorem contents_copyIn (iov : List (List UInt8)) (io : OutputStream) :
    (io.copyIn iov).contents = io.contents ++ iov.flatten := by
  simp [contents, copyIn]

theorem Fits.copyIn {io : OutputStream} {iov : List (List UInt8)} (h : io.Fits)
    (hspace : totalLength iov ≤ io.space) : (io.copyIn iov).Fits := by
  rw [totalLength_eq] at hspace
  unfold Fits OutputStream.copyIn OutputStream.space at *
  dsimp only
  rw [List.length_append]
  omega

theorem contents_writeIfNeeded (channel : ℕ → WriteAnswer) (flush waiting : Bool)
    (io : OutputStream) :
    (io.writeIfNeeded channel flush waiting).io.contents = io.contents := by
  unfold writeIfNeeded
  split_ifs
  · apply contents_writeOut
  · rfl

theorem Fits.writeIfNeeded {io : OutputStream} (h : io.Fits) (channel : ℕ → WriteAnswer)
    (flush waiting : Bool) : (io.writeIfNeeded channel flush waiting).io.Fits := by
  unfold OutputStream.writeIfNeeded
  split_ifs
  · apply h.writeOut
  · exact h

theorem writeIfNeeded_waiting (channel : ℕ → WriteAnswer) (flush waiting : Bool)
    (io : OutputStream) : (io.writeIfNeeded channel flush waiting).waiting = waiting := by
  unfold writeIfNeeded
  split_ifs <;> rfl

theorem writeIfNeeded_thrown {channel : ℕ → WriteAnswer} (hchannel : ∀ n, channel n ≠ .error)
    (flush waiting : Bool) (io : OutputStream) :
    (io.writeIfNeeded channel flush waiting).thrown = false := by
  unfold writeIfNeeded
  split_ifs
  · simp [writeOut_returned hchannel]
  · rfl

/-! ## One write

An attempt leaves the contents alone while the user buffers wait, and has appended all
of them when they no longer do. -/

theorem Fits.attempt {io : OutputStream} (h : io.Fits) (channel : ℕ → WriteAnswer)
    (iov : List (List UInt8)) (flush waiting : Bool) :
    (io.attempt channel iov flush waiting).io.Fits := by
  have hmade := h.makeSpace (totalLength iov)
  unfold OutputStream.attempt
  dsimp only
  split_ifs with hspace
  · exact (hmade.copyIn hspace).writeIfNeeded channel flush false
  · exact hmade.writeIfNeeded channel flush waiting

theorem attempt_waiting {io : OutputStream} {channel : ℕ → WriteAnswer}
    {iov : List (List UInt8)} {flush waiting : Bool}
    (h : (io.attempt channel iov flush waiting).waiting = true) :
    (io.attempt channel iov flush waiting).io.contents = io.contents := by
  unfold attempt at h ⊢
  dsimp only at h ⊢
  split_ifs at h ⊢ with hspace
  · rw [writeIfNeeded_waiting] at h
    cases h
  · rw [contents_writeIfNeeded, contents_makeSpace]

theorem attempt_not_waiting {io : OutputStream} {channel : ℕ → WriteAnswer}
    {iov : List (List UInt8)} {flush waiting : Bool}
    (hwaiting : waiting = decide (iov ≠ []))
    (h : (io.attempt channel iov flush waiting).waiting = false) :
    (io.attempt channel iov flush waiting).io.contents = io.contents ++ iov.flatten := by
  unfold attempt at h ⊢
  dsimp only at h ⊢
  split_ifs at h ⊢ with hspace
  · rw [contents_writeIfNeeded, contents_copyIn, contents_makeSpace]
  · -- there are no user buffers, which would have found room
    rw [writeIfNeeded_waiting, hwaiting, decide_eq_false_iff_not, not_not] at h
    subst h
    exact absurd (Nat.zero_le _) hspace

theorem attempt_thrown {channel : ℕ → WriteAnswer} (hchannel : ∀ n, channel n ≠ .error)
    (iov : List (List UInt8)) (flush waiting : Bool) (io : OutputStream) :
    (io.attempt channel iov flush waiting).thrown = false := by
  unfold attempt
  dsimp only
  split_ifs <;> apply writeIfNeeded_thrown hchannel

theorem attempt_waiting_eq {io : OutputStream} {channel : ℕ → WriteAnswer}
    {iov : List (List UInt8)} {flush waiting : Bool}
    (h : (io.attempt channel iov flush waiting).waiting = true) : waiting = true := by
  unfold attempt at h
  dsimp only at h
  split_ifs at h
  · rw [writeIfNeeded_waiting] at h
    cases h
  · rwa [writeIfNeeded_waiting] at h

/-- What a write may have done: all of it, with its total length returned, or nothing,
with zero returned. -/
def Atomic (iov : List (List UInt8)) (before : OutputStream) (result : Option ℕ × OutputStream) :
    Prop :=
  (result.1 = some (totalLength iov) ∧ result.2.contents = before.contents ++ iov.flatten) ∨
    (result.1 = some 0 ∧ result.2.contents = before.contents)

theorem attempts_atomic {channel : ℕ → WriteAnswer} (hchannel : ∀ n, channel n ≠ .error)
    (iov : List (List UInt8)) (flush : Bool) {waiting : Bool}
    (hwaiting : waiting = decide (iov ≠ [])) (left : ℕ) (io : OutputStream)
    (hleft : left = 0 → waiting = true) :
    Atomic iov io (attempts channel iov flush left waiting io) := by
  -- the user buffers are still waiting at the start of every attempt but the first
  induction left generalizing io with
  | zero =>
    right
    simp [attempts, hleft rfl]
  | succ left ih =>
    unfold attempts
    simp only [attempt_thrown hchannel, Bool.false_eq_true, ↓reduceIte]
    split_ifs with hturn
    · have hwait := attempt_waiting_eq hturn
      have hrest := ih (io.attempt channel iov flush waiting).io (fun _ => hwait)
      rw [hturn, ← hwait]
      unfold Atomic at hrest ⊢
      rwa [attempt_waiting hturn] at hrest
    · left
      exact ⟨rfl, attempt_not_waiting hwaiting (Bool.not_eq_true _ ▸ hturn)⟩

theorem Fits.attempts {channel : ℕ → WriteAnswer} {iov : List (List UInt8)} {flush : Bool}
    (left : ℕ) {waiting : Bool} {io : OutputStream} (h : io.Fits) :
    (attempts channel iov flush left waiting io).2.Fits := by
  induction left generalizing waiting io with
  | zero => exact h
  | succ left ih =>
    have hturn := h.attempt channel iov flush waiting
    unfold OutputStream.attempts
    dsimp only
    split_ifs
    · exact hturn
    · exact ih hturn
    · exact hturn

/-- Growing the buffer loses nothing: what waits fits into the old one. -/
theorem contents_reallocateBuffer {io : OutputStream} (h : io.Fits) {len : ℕ}
    (hlen : io.buflen < len) : (io.reallocateBuffer len).contents = io.contents := by
  have hbytes : io.bytes.length ≤ len := by
    unfold Fits at h
    omega
  simp [contents, reallocateBuffer, List.take_of_length_le hbytes]

theorem fits_reallocateBuffer (len : ℕ) (io : OutputStream) : (io.reallocateBuffer len).Fits := by
  unfold Fits reallocateBuffer
  dsimp only
  rw [Nat.zero_add]
  apply List.length_take_le

theorem write_atomic {channel : ℕ → WriteAnswer} (hchannel : ∀ n, channel n ≠ .error)
    (iov : List (List UInt8)) (flush : Bool) {io : OutputStream} (h : io.Fits) :
    Atomic iov io (io.write channel iov flush) := by
  unfold write
  dsimp only
  split_ifs with hlen
  · have hattempts := attempts_atomic hchannel iov flush rfl 2
      (io.reallocateBuffer (totalLength iov)) (fun htwo => absurd htwo (by decide))
    unfold Atomic at hattempts ⊢
    rwa [contents_reallocateBuffer h hlen] at hattempts
  · exact attempts_atomic hchannel iov flush rfl 2 io (fun htwo => absurd htwo (by decide))

theorem Fits.write {io : OutputStream} (h : io.Fits) (channel : ℕ → WriteAnswer)
    (iov : List (List UInt8)) (flush : Bool) : (io.write channel iov flush).2.Fits := by
  unfold OutputStream.write
  dsimp only
  split_ifs
  · exact (fits_reallocateBuffer _ io).attempts 2
  · exact h.attempts 2

/-! ## Flushing -/

theorem contents_flushLoop (channel : ℕ → WriteAnswer) (left : ℕ) (io : OutputStream) :
    (flushLoop channel left io).2.contents = io.contents := by
  induction left generalizing io with
  | zero => rfl
  | succ left ih =>
    unfold flushLoop
    split_ifs
    · rfl
    · have hout := contents_writeOut channel io
      generalize io.writeOut channel = answer at hout ⊢
      obtain ⟨_ | _, out⟩ := answer
      · exact hout
      · exact (ih out).trans hout

theorem Fits.flushLoop {channel : ℕ → WriteAnswer} (left : ℕ) {io : OutputStream} (h : io.Fits) :
    (flushLoop channel left io).2.Fits := by
  induction left generalizing io with
  | zero => exact h
  | succ left ih =>
    unfold OutputStream.flushLoop
    split_ifs
    · exact h
    · have hout := h.writeOut channel
      generalize io.writeOut channel = answer at hout ⊢
      obtain ⟨_ | _, out⟩ := answer
      · exact hout
      · exact ih hout

/-! ## Any number of calls -/

theorem Fits.perform {io : OutputStream} (h : io.Fits) (channel : ℕ → WriteAnswer) (call : Call) :
    (io.perform channel call).after.Fits := by
  cases call with
  | write iov flush => exact h.write channel iov flush
  | flush => exact h.flushLoop 5

/-- One call appends to the contents what it has written. -/
theorem perform_contents {channel : ℕ → WriteAnswer} (hchannel : ∀ n, channel n ≠ .error)
    (call : Call) {io : OutputStream} (h : io.Fits) :
    (io.perform channel call).after.contents =
      io.contents ++ (io.perform channel call).written := by
  cases call with
  | write iov flush =>
    unfold perform Done.written
    dsimp only
    obtain ⟨hresult, hcontents⟩ | ⟨hresult, hcontents⟩ := write_atomic hchannel iov flush h
    · rw [if_pos hresult, hcontents]
    · rw [hcontents]
      split_ifs with htotal
      · -- an empty write returns zero, which is its total length
        have hzero := Option.some_inj.mp (htotal.symm.trans hresult)
        rw [totalLength_eq] at hzero
        rw [List.eq_nil_of_length_eq_zero hzero, List.append_nil]
      · rw [List.append_nil]
  | flush =>
    have hflush := contents_flushLoop channel 5 io
    unfold perform Done.written
    rw [List.append_nil]
    exact hflush

/-- A write in the list of calls: its result, and what it leaves when it fails. -/
def Done.IsAtomic (done : Done) : Prop :=
  ∀ iov flush, done.call = .write iov flush →
    (done.result = some 0 ∨ done.result = some (totalLength iov)) ∧
      (done.result = some 0 → done.after.contents = done.before.contents)

theorem perform_isAtomic {channel : ℕ → WriteAnswer} (hchannel : ∀ n, channel n ≠ .error)
    (call : Call) {io : OutputStream} (h : io.Fits) : (io.perform channel call).IsAtomic := by
  cases call with
  | write iov flush =>
    rintro _ _ ⟨⟩
    obtain ⟨hresult, hcontents⟩ | ⟨hresult, hcontents⟩ := write_atomic hchannel iov flush h
    · refine ⟨.inr hresult, fun hzero => ?_⟩
      have hempty : iov.flatten.length = 0 := by
        rw [← totalLength_eq]
        exact Option.some_inj.mp (hresult.symm.trans hzero)
      rw [List.eq_nil_of_length_eq_zero hempty, List.append_nil] at hcontents
      exact hcontents
    · exact ⟨.inl hresult, fun _ => hcontents⟩
  | flush => rintro _ _ ⟨⟩

/-- The run from any stream whose waiting bytes fit: a list of calls appends what its
writes have written. -/
theorem performAll_spec {channel : ℕ → WriteAnswer} (hchannel : ∀ n, channel n ≠ .error)
    (calls : List Call) {io : OutputStream} (h : io.Fits) :
    (performAll channel calls io).2.contents =
        io.contents ++ ((performAll channel calls io).1.map Done.written).flatten ∧
      ∀ done ∈ (performAll channel calls io).1, done.IsAtomic := by
  induction calls generalizing io with
  | nil => simp [performAll]
  | cons call calls ih =>
    obtain ⟨hcontents, hatomic⟩ := ih (h.perform channel call)
    constructor
    · calc (performAll channel (call :: calls) io).2.contents
          = (performAll channel calls (io.perform channel call).after).2.contents := rfl
        _ = (io.contents ++ (io.perform channel call).written) ++
              ((performAll channel calls (io.perform channel call).after).1.map
                Done.written).flatten := by rw [hcontents, perform_contents hchannel call h]
        _ = _ := by rw [List.append_assoc]; rfl
    · intro done hdone
      rcases List.mem_cons.mp hdone with rfl | hlater
      · exact perform_isAtomic hchannel call h
      · exact hatomic done hlater

/-- **Writes are atomic and ordered.**  Whatever calls are made and whatever the channel
accepts of each write, the bytes it has accepted and those still in the buffer are the
contents of the writes that returned their total length, in order; each write returns
zero or its total length; and one that returns zero leaves none of its bytes. -/
theorem performAll_atomic {channel : ℕ → WriteAnswer} (hchannel : ∀ n, channel n ≠ .error)
    (blen : ℕ) (calls : List Call) :
    (performAll channel calls (create blen)).2.contents =
        ((performAll channel calls (create blen)).1.map Done.written).flatten ∧
      ∀ done ∈ (performAll channel calls (create blen)).1, done.IsAtomic := by
  have hfits : (create blen).Fits := by
    unfold Fits create
    exact Nat.zero_le _
  exact performAll_spec hchannel calls hfits

/-- A channel that would block at first and then takes two bytes at a time. -/
theorem performAll_atomic_slow :
    (∀ n, (fun n => if n = 0 then .wouldBlock else .accepted 2) n ≠ WriteAnswer.error) ∧
      (performAll (fun n => if n = 0 then .wouldBlock else .accepted 2)
        [.write [[1, 2], [3]] false, .write [[4], [5, 6, 7]] false, .flush] (create 2)).2.contents =
      ((performAll (fun n => if n = 0 then .wouldBlock else .accepted 2)
        [.write [[1, 2], [3]] false, .write [[4], [5, 6, 7]] false, .flush]
        (create 2)).1.map Done.written).flatten := by
  have hchannel : ∀ n, (fun n => if n = 0 then .wouldBlock else .accepted 2) n ≠
      WriteAnswer.error := by
    intro n
    dsimp only
    split_ifs <;> simp
  exact ⟨hchannel, (performAll_atomic hchannel 2 _).1⟩

end OutputStream

end Nidas.Core
