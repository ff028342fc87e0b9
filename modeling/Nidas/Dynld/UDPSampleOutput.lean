import Nidas.Core.SampleHeader
import Nidas.Lib.Packing

/-!
# Samples packed into datagrams

`UDPSampleOutput::write` copies a sample into a buffer, and writes the buffer as one datagram when
the sample does not fit behind what is there or when the last write is long ago.  A sample that is
larger than the buffer is a datagram of its own.

## Strategy

The tail never leaves the start of the buffer (`tail_eq` of `Valid`), so that an empty buffer has
all its space.  A first attempt that leaves the sample behind therefore has emptied a buffer in
which there is room for it, and the second attempt succeeds.  What one attempt does is `attempt_full` and
`attempt_fits`; a whole call of `write` leaves the samples so far and the new one packed
(`packed_write`), and so does every run.
-/

namespace Nidas.Dynld

open Core Lib

/-! ## The code -/

/-- The members of a `UDPSampleOutput` that `write` uses.  `pending` is what stands between `_tail`
and `_head`; `tail` is the distance of `_tail` from `_buffer`, and `allocated` whether `_buffer` is
not null.  `datagrams` is what was written to the channel. -/
structure UDPSampleOutput where
  allocated : Bool := false
  buflen : ℕ := 0
  tail : ℕ := 0
  pending : List UInt8 := []
  lastWrite : ℤ := 0
  maxUsecs : ℤ := 1000000 / 4
  datagrams : List (List UInt8) := []
  numOutputBytes : ℕ := 0
  discardedSamples : ℕ := 0
  deriving DecidableEq, Repr

namespace UDPSampleOutput

/-- `UDPSampleOutput::allocateBuffer` -/
def allocateBuffer (output : UDPSampleOutput) (len : ℕ) : UDPSampleOutput :=
  if output.allocated then
    { output with buflen := len, tail := 0, pending := output.pending.take len }
  else
    { output with allocated := true, buflen := len, tail := 0, pending := [] }

/-- `IOChannel::write` of a datagram, which succeeds and is complete, and `addNumOutputBytes`. -/
def writeChannel (output : UDPSampleOutput) (bytes : List UInt8) : UDPSampleOutput :=
  { output with
    datagrams := output.datagrams ++ [bytes]
    numOutputBytes := output.numOutputBytes + bytes.length }

/-- `_eob - _head` -/
def space (output : UDPSampleOutput) : ℕ :=
  output.buflen - (output.tail + output.pending.length)

/-- The copy of the user buffers to `_head`. -/
def copyIn (output : UDPSampleOutput) (iov : List (List UInt8)) : UDPSampleOutput :=
  { output with pending := output.pending ++ iov.flatten }

/-- The buffer is written, if there is something in it, and emptied. -/
def writeBuffer (output : UDPSampleOutput) : UDPSampleOutput :=
  if 0 < output.pending.length then
    { output.writeChannel output.pending with tail := 0, pending := [] }
  else output

/-- One turn of the loop in `UDPSampleOutput::write`, with the count of user buffers after it. -/
def attempt (output : UDPSampleOutput) (iov : List (List UInt8)) (iovcnt tlen : ℕ)
    (tnow tdiff : ℤ) : UDPSampleOutput × ℕ :=
  let (output, iovcnt) :=
    if tlen ≤ output.space then (output.copyIn (iov.take iovcnt), 0) else (output, iovcnt)
  if 0 < iovcnt ∨ (0 < output.pending.length ∧ output.maxUsecs ≤ tdiff) then
    let output := output.writeBuffer
    let (output, iovcnt) :=
      if output.buflen < tlen then (output.writeChannel (iov.take iovcnt).flatten, 0)
      else (output, iovcnt)
    ({ output with lastWrite := tnow }, iovcnt)
  else (output, iovcnt)

/-- The loop in `UDPSampleOutput::write`. -/
def attempts (iov : List (List UInt8)) (tlen : ℕ) (tnow tdiff : ℤ) :
    ℕ → UDPSampleOutput → ℕ → UDPSampleOutput
  | 0, output, _ => output
  | count + 1, output, iovcnt =>
      let (output, iovcnt) := output.attempt iov iovcnt tlen tnow tdiff
      if iovcnt = 0 then output else attempts iov tlen tnow tdiff count output iovcnt

/-- `UDPSampleOutput::write`, with the system time `tnow`; the length that it returns. -/
def write (output : UDPSampleOutput) (iov : List (List UInt8)) (tnow : ℤ) : UDPSampleOutput × ℕ :=
  let tlen := (iov.map List.length).sum
  (attempts iov tlen tnow (tnow - output.lastWrite) 2 output iov.length, tlen)

/-- `UDPSampleOutput::receive` at the system time `tnow`, on a little endian host. -/
def receive (output : UDPSampleOutput) (sample : Sample) (tnow : ℤ) : UDPSampleOutput :=
  let (output, length) := output.write [sample.header.toBytes, sample.data] tnow
  if length = 0 then { output with discardedSamples := output.discardedSamples + 1 } else output

/-- What happens to an output: a request for data arrives on a channel with some buffer size, or a
sample is received at some system time. -/
inductive Event where
  | connected (bufferSize : ℕ)
  | receive (sample : Sample) (tnow : ℤ)

/-- The part of `UDPSampleOutput::connected` that is about the buffer, and `receive`. -/
def handle (output : UDPSampleOutput) : Event → UDPSampleOutput
  | .connected bufferSize =>
      if output.allocated then output else output.allocateBuffer bufferSize
  | .receive sample tnow => output.receive sample tnow

/-- A new output after some events. -/
def run (events : List Event) : UDPSampleOutput :=
  events.foldl handle {}

/-- The samples received in some events. -/
def received : List Event → List Sample
  | [] => []
  | .connected _ :: events => received events
  | .receive sample _ :: events => sample :: received events

/-! ## One call -/

/-- What holds between two calls. -/
structure Valid (output : UDPSampleOutput) : Prop where
  tail_eq : output.tail = 0
  length_le : output.pending.length ≤ output.buflen
  buflen_eq : output.allocated = false → output.buflen = 0

/-- Whether the samples so far are in the datagrams and the buffer. -/
abbrev Holds (output : UDPSampleOutput) (samples : List Sample) : Prop :=
  Packed Sample.encode samples output.datagrams output.pending

variable {output : UDPSampleOutput} {samples : List Sample}

theorem Valid.space_eq (hvalid : output.Valid) :
    output.space = output.buflen - output.pending.length := by
  rw [space, hvalid.tail_eq, Nat.zero_add]

@[simp] theorem writeBuffer_pending (output : UDPSampleOutput) :
    output.writeBuffer.pending = [] := by
  unfold writeBuffer
  split
  · rfl
  · rename_i hempty
    exact List.length_eq_zero_iff.mp (Nat.eq_zero_of_not_pos hempty)

@[simp] theorem writeBuffer_buflen (output : UDPSampleOutput) :
    output.writeBuffer.buflen = output.buflen := by
  unfold writeBuffer
  split <;> rfl

@[simp] theorem writeBuffer_allocated (output : UDPSampleOutput) :
    output.writeBuffer.allocated = output.allocated := by
  unfold writeBuffer
  split <;> rfl

theorem Valid.writeBuffer (hvalid : output.Valid) : output.writeBuffer.Valid := by
  refine ⟨?_, ?_, ?_⟩
  · unfold UDPSampleOutput.writeBuffer
    split
    · rfl
    · exact hvalid.tail_eq
  · simp
  · simpa using hvalid.buflen_eq

/-- To write the buffer loses no sample. -/
theorem holds_writeBuffer (hholds : output.Holds samples) : output.writeBuffer.Holds samples := by
  unfold writeBuffer
  split
  · rename_i hpos
    exact hholds.flush (List.ne_nil_of_length_pos hpos)
  · exact hholds

section Write

variable {iov : List (List UInt8)} {sample : Sample} (tnow tdiff : ℤ)

/-- A sample has a header, so that there is something to write. -/
theorem iov_length_pos (hiov : iov.flatten = sample.encode) : 0 < iov.length := by
  rw [List.length_pos_iff]
  rintro rfl
  have hlength := sample.length_encode
  rw [← hiov, List.flatten_nil, List.length_nil, sampleHeaderSize] at hlength
  omega

/-- With space for the sample, an attempt puts it behind the others. -/
theorem attempt_fits (hvalid : output.Valid) (hholds : output.Holds samples)
    (hiov : iov.flatten = sample.encode) (hfits : sample.encode.length ≤ output.space) :
    ∃ next, output.attempt iov iov.length sample.encode.length tnow tdiff = (next, 0) ∧
      next.Valid ∧ next.Holds (samples ++ [sample]) := by
  have hle : output.pending.length + sample.encode.length ≤ output.buflen := by
    have hspace := hvalid.space_eq
    have hlength := hvalid.length_le
    omega
  have hcopied : (output.copyIn iov).Valid :=
    ⟨hvalid.tail_eq, by simpa [copyIn, hiov] using hle, hvalid.buflen_eq⟩
  have hheld : (output.copyIn iov).Holds (samples ++ [sample]) := by
    have happend := hholds.append sample
    rw [← hiov] at happend
    exact happend
  have hsmall : ¬ output.buflen < sample.encode.length := by omega
  unfold attempt
  rw [if_pos hfits, List.take_length]
  dsimp only
  split
  · rw [if_neg (by simpa [copyIn] using hsmall)]
    have hwritten := hcopied.writeBuffer
    exact ⟨_, rfl, ⟨hwritten.tail_eq, hwritten.length_le, hwritten.buflen_eq⟩,
      holds_writeBuffer hheld⟩
  · exact ⟨_, rfl, hcopied, hheld⟩

/-- An attempt to store a sample that is larger than the buffer writes it. -/
theorem attempt_large (hvalid : output.Valid) (hholds : output.Holds samples)
    (hiov : iov.flatten = sample.encode) (hlarge : output.buflen < sample.encode.length) :
    ∃ next, output.attempt iov iov.length sample.encode.length tnow tdiff = (next, 0) ∧
      next.Valid ∧ next.Holds (samples ++ [sample]) := by
  have hfull : ¬ sample.encode.length ≤ output.space := by
    have hspace := hvalid.space_eq
    omega
  have hwritten := hvalid.writeBuffer
  have hdirect : Packed Sample.encode (samples ++ [sample])
      (output.writeBuffer.datagrams ++ [iov.flatten]) output.writeBuffer.pending := by
    have happend := (holds_writeBuffer hholds).append sample
    rw [writeBuffer_pending, List.nil_append] at happend
    rw [writeBuffer_pending, hiov]
    apply happend.flush
    exact List.ne_nil_of_length_pos (by omega)
  unfold attempt
  rw [if_neg hfull]
  dsimp only
  rw [if_pos (Or.inl (iov_length_pos hiov)), if_pos (by simpa using hlarge), List.take_length]
  exact ⟨_, rfl, ⟨hwritten.tail_eq, hwritten.length_le, hwritten.buflen_eq⟩, hdirect⟩

/-- Without space, an attempt to store any other sample makes all the space that there is. -/
theorem attempt_full (hvalid : output.Valid) (hholds : output.Holds samples)
    (hiov : iov.flatten = sample.encode) (hfull : output.space < sample.encode.length)
    (hsmall : sample.encode.length ≤ output.buflen) :
    ∃ next, output.attempt iov iov.length sample.encode.length tnow tdiff = (next, iov.length) ∧
      next.Valid ∧ next.Holds samples ∧ sample.encode.length ≤ next.space := by
  have hwritten := hvalid.writeBuffer
  have hspace : sample.encode.length ≤ output.writeBuffer.space := by
    rw [hwritten.space_eq, writeBuffer_pending, writeBuffer_buflen]
    exact hsmall
  unfold attempt
  rw [if_neg (Nat.not_le.mpr hfull)]
  dsimp only
  rw [if_pos (Or.inl (iov_length_pos hiov)), if_neg (by simpa using hsmall)]
  exact ⟨_, rfl, ⟨hwritten.tail_eq, hwritten.length_le, hwritten.buflen_eq⟩,
    holds_writeBuffer hholds, hspace⟩

/-- Two attempts are enough for any sample. -/
theorem packed_attempts (hvalid : output.Valid) (hholds : output.Holds samples)
    (hiov : iov.flatten = sample.encode) :
    (attempts iov sample.encode.length tnow tdiff 2 output iov.length).Valid ∧
      (attempts iov sample.encode.length tnow tdiff 2 output iov.length).Holds
        (samples ++ [sample]) := by
  by_cases hlarge : output.buflen < sample.encode.length
  · obtain ⟨next, hattempt, hdone⟩ := attempt_large tnow tdiff hvalid hholds hiov hlarge
    rw [attempts, hattempt]
    exact hdone
  · by_cases hfits : sample.encode.length ≤ output.space
    · obtain ⟨next, hattempt, hdone⟩ := attempt_fits tnow tdiff hvalid hholds hiov hfits
      rw [attempts, hattempt]
      exact hdone
    · obtain ⟨next, hattempt, hvalid', hholds', hspace⟩ := attempt_full tnow tdiff hvalid hholds
        hiov (Nat.not_le.mp hfits) (Nat.not_lt.mp hlarge)
      obtain ⟨last, hattempt', hdone⟩ := attempt_fits tnow tdiff hvalid' hholds' hiov hspace
      have hcount : iov.length ≠ 0 := (iov_length_pos hiov).ne'
      rw [attempts, hattempt]
      dsimp only
      rw [if_neg hcount, attempts, hattempt']
      exact hdone

end Write

theorem packed_receive (hvalid : output.Valid) (hholds : output.Holds samples) (sample : Sample)
    (tnow : ℤ) :
    (output.receive sample tnow).Valid ∧
      (output.receive sample tnow).Holds (samples ++ [sample]) := by
  have hiov : [sample.header.toBytes, sample.data].flatten = sample.encode := by
    simp [Sample.encode]
  have hlength : ([sample.header.toBytes, sample.data].map List.length).sum =
      sample.encode.length := by
    rw [← List.length_flatten, hiov]
  have hne : sample.encode.length ≠ 0 := by
    simp [sampleHeaderSize]
  unfold receive write
  dsimp only
  rw [hlength, if_neg hne]
  exact packed_attempts tnow _ hvalid hholds hiov

/-! ## Every run -/

theorem packed_connected (hvalid : output.Valid) (hholds : output.Holds samples) (bufferSize : ℕ) :
    (output.handle (.connected bufferSize)).Valid ∧
      (output.handle (.connected bufferSize)).Holds samples := by
  unfold handle
  dsimp only
  split
  · exact ⟨hvalid, hholds⟩
  · rename_i hallocated
    have hempty : output.pending = [] := by
      have hlength := hvalid.length_le
      rw [hvalid.buflen_eq (Bool.eq_false_of_not_eq_true hallocated)] at hlength
      exact List.length_eq_zero_iff.mp (Nat.le_zero.mp hlength)
    rw [allocateBuffer, if_neg hallocated]
    refine ⟨⟨rfl, Nat.zero_le _, by simp⟩, ?_⟩
    rw [Holds, hempty] at hholds
    exact hholds

theorem packed_foldl (events : List Event) (hvalid : output.Valid) (hholds : output.Holds samples) :
    (events.foldl handle output).Holds (samples ++ received events) := by
  induction events generalizing output samples with
  | nil => simpa [received] using hholds
  | cons event events ih =>
      cases event with
      | connected bufferSize =>
          obtain ⟨hvalid', hholds'⟩ := packed_connected hvalid hholds bufferSize
          exact ih hvalid' hholds'
      | receive sample tnow =>
          obtain ⟨hvalid', hholds'⟩ := packed_receive hvalid hholds sample tnow
          have hrest := ih hvalid' hholds'
          rwa [List.append_assoc, List.singleton_append] at hrest

/-- **The datagrams are concatenations of whole samples, and they and the buffer hold every sample
once and in order.** -/
theorem packed_run (events : List Event) : (run events).Holds (received events) := by
  have hvalid : Valid {} := ⟨rfl, le_refl 0, fun _ => rfl⟩
  have hrun := packed_foldl events hvalid Packed.nil
  rwa [List.nil_append] at hrun

end UDPSampleOutput

end Nidas.Dynld
