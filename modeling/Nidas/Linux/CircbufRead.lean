import Nidas.Lib.CircBuf
import Nidas.Lib.Runs
import Nidas.Core.DriverSampleScanner

/-!
# Reading samples from a driver

A driver puts samples into a circular buffer, and `nidas_circbuf_read_nowait` copies them to the
user: whole samples as long as there are any, and at the end of the user's buffer a part of
one.  What is left of that sample is kept for the next read.

The bytes that have been delivered, those that have been copied by the read that is going on, and
those that its pointer and the buffer stand for are together the bytes of all samples.  A read that
is over leaves its pointer in the state.  A read whose copy fails does not, and it has moved the
tail beyond the samples that it has copied.  If there are none, nothing is lost.
-/

namespace Nidas.Linux

open Lib Core

/-! ## The code -/

/-- `struct sample_read_state`: a pointer into a slot of the buffer, and the bytes that are left
from there on. -/
structure SampleReadState where
  samplePtr : Option (ℕ × ℕ)
  bytesLeft : ℕ
  deriving DecidableEq

/-- Where a read is: at the head of its loop, after a copy that completed a sample, or about to get
the sample at the tail. -/
inductive ReadPoint where
  | loop
  | completed
  | getTail
  deriving DecidableEq

/-- The local variables of a read, and what is in the user's buffer. -/
structure ReadCall where
  point : ReadPoint
  count : ℕ
  bytesLeft : ℕ
  samplePtr : Option (ℕ × ℕ)
  copied : List UInt8

/-- The buffer and the state of its reader, with the read that is going on.  `inserted` are the
samples that the driver has put into the buffer, `delivered` the bytes of the reads that
succeeded. -/
structure CircbufReader where
  cbuf : CircBuf DsmSample
  state : SampleReadState
  call : Option ReadCall
  inserted : List DsmSample
  delivered : List UInt8

/-- What can happen next: the driver inserts a sample, a read starts, and the steps of a read.  A
copy to the user can fail. -/
inductive ReadAction where
  | insert (sample : DsmSample)
  | start (count : ℕ)
  | copy
  | fault
  | incrementTail
  | getTail
  | finish

namespace CircbufReader

/-- The bytes at a pointer. -/
def bytesAt (cbuf : CircBuf DsmSample) : Option (ℕ × ℕ) → List UInt8
  | some (slot, offset) => (cbuf.buf slot).encode.drop offset
  | none => []

/-- The pointer moves on. -/
def advance (n : ℕ) : Option (ℕ × ℕ) → Option (ℕ × ℕ)
  | some (slot, offset) => some (slot, offset + n)
  | none => none

/-- The read copies next. -/
def copies (call : ReadCall) : Bool :=
  call.point = .loop ∧ 0 < min call.bytesLeft call.count

/-- After a copy: back to the loop with a full buffer, else the sample is completed. -/
def copyStep (cbuf : CircBuf DsmSample) (call : ReadCall) : ReadCall :=
  let n := min call.bytesLeft call.count
  { point := if 0 < call.bytesLeft - n then .loop else .completed
    count := call.count - n
    bytesLeft := call.bytesLeft - n
    samplePtr := advance n call.samplePtr
    copied := call.copied ++ (bytesAt cbuf call.samplePtr).take n }

/-- The read returns: the user's buffer is full, or there are no more samples. -/
def finishes (cbuf : CircBuf DsmSample) (call : ReadCall) : Bool :=
  (call.point = .loop ∧ call.count = 0) ∨ (call.point = .getTail ∧ cbuf.getTail = none)

/-- What a read leaves for the next one. -/
def savedState (call : ReadCall) : SampleReadState :=
  ⟨call.samplePtr, call.bytesLeft % 2 ^ 32⟩

/-- The driver inserts a sample, if there is a slot for it.  The slots come from `kmalloc`, none of
them has 4 GB. -/
def insertSample (reader : CircbufReader) (sample : DsmSample) : Option CircbufReader :=
  (reader.cbuf.insert sample).bind fun cbuf =>
    if sample.encode.length < 2 ^ 32 then
      some { reader with cbuf := cbuf, inserted := reader.inserted ++ [sample] }
    else none

/-- One step, if it can be taken. -/
def step (reader : CircbufReader) : ReadAction → Option CircbufReader
  | .insert sample => reader.insertSample sample
  | .start count =>
      match reader.call with
      | some _ => none
      | none =>
          let call : ReadCall := ⟨.loop, count, reader.state.bytesLeft, reader.state.samplePtr, []⟩
          some { reader with call := some call }
  | .copy =>
      match reader.call with
      | some call =>
          if copies call then some { reader with call := some (copyStep reader.cbuf call) }
          else none
      | none => none
  | .fault =>
      match reader.call with
      -- `-EFAULT`
      | some call => if copies call then some { reader with call := none } else none
      | none => none
  | .incrementTail =>
      match reader.call with
      | some call =>
          if call.point = .completed then
            some { reader with
              cbuf := reader.cbuf.incrementTail
              call := some { call with point := .getTail, samplePtr := none } }
          else none
      | none => none
  | .getTail =>
      match reader.call with
      | some call =>
          if call.point = .loop ∧ 0 < call.count ∧ call.bytesLeft = 0 then
            -- nothing to copy
            some { reader with call := some { call with point := .getTail } }
          else if call.point = .getTail then
            match reader.cbuf.getTail with
            | some slot =>
                some { reader with
                  call := some { call with
                    point := .loop
                    samplePtr := some (slot, 0)
                    bytesLeft :=
                      (reader.cbuf.buf slot).data.length + sizeofDsmSampleHeader } }
            | none => none
          else none
      | none => none
  | .finish =>
      match reader.call with
      | some call =>
          if finishes reader.cbuf call then
            some { reader with
              state := savedState call
              call := none
              delivered := reader.delivered ++ call.copied }
          else none
      | none => none

/-! ## What is still to be read -/

/-- The bytes of some samples. -/
def bytesOf (samples : List DsmSample) : List UInt8 := samples.flatMap DsmSample.encode

/-- The bytes that a saved state and the buffer stand for. -/
def remaining (cbuf : CircBuf DsmSample) (state : SampleReadState) : List UInt8 :=
  if state.bytesLeft = 0 then bytesOf cbuf.items
  else (bytesAt cbuf state.samplePtr).take state.bytesLeft ++ bytesOf cbuf.items.tail

/-- A pointer with the number of bytes left stands for `bytes`: what is left of the sample at the
tail, and the samples behind it. -/
structure InSample (cbuf : CircBuf DsmSample) (samplePtr : Option (ℕ × ℕ)) (bytesLeft offset : ℕ)
    (bytes : List UInt8) : Prop where
  count_pos : 0 < cbuf.count
  samplePtr_eq : samplePtr = some (cbuf.tail, offset)
  length_eq : offset + bytesLeft = (cbuf.buf cbuf.tail).encode.length
  bytes_eq : bytes = (cbuf.buf cbuf.tail).encode.drop offset ++ bytesOf cbuf.incrementTail.items

/-- A pointer with the number of bytes left stands for `bytes`. -/
def StandsFor (cbuf : CircBuf DsmSample) (samplePtr : Option (ℕ × ℕ)) (bytesLeft : ℕ)
    (bytes : List UInt8) : Prop :=
  (bytesLeft = 0 ∧ bytes = bytesOf cbuf.items) ∨
    (0 < bytesLeft ∧ ∃ offset, InSample cbuf samplePtr bytesLeft offset bytes)

theorem bytesOf_append (samples : List DsmSample) (sample : DsmSample) :
    bytesOf (samples ++ [sample]) = bytesOf samples ++ sample.encode := by
  simp [bytesOf]

theorem bytesOf_cons (sample : DsmSample) (samples : List DsmSample) :
    bytesOf (sample :: samples) = sample.encode ++ bytesOf samples := by
  simp [bytesOf]

variable {cbuf next : CircBuf DsmSample} {samplePtr : Option (ℕ × ℕ)} {bytesLeft offset : ℕ}
  {bytes : List UInt8} {sample : DsmSample}

/-- A sample that is inserted comes last. -/
theorem InSample.insert (hin : InSample cbuf samplePtr bytesLeft offset bytes)
    (hinsert : cbuf.insert sample = some next) :
    InSample next samplePtr bytesLeft offset (bytes ++ sample.encode) := by
  have htail := cbuf.insert_tail hinsert
  have hitems := cbuf.items_insert hinsert
  have hcount : 0 < next.count := by
    rw [← next.length_items, hitems]
    simp
  rw [next.items_eq_cons hcount, cbuf.items_eq_cons hin.count_pos, List.cons_append] at hitems
  obtain ⟨hslot, hrest⟩ := List.cons.inj hitems
  refine ⟨hcount, ?_, ?_, ?_⟩
  · rw [htail]
    exact hin.samplePtr_eq
  · rw [hslot]
    exact hin.length_eq
  · rw [hslot, hrest, bytesOf_append, ← List.append_assoc, ← hin.bytes_eq]

theorem StandsFor.insert (hstands : StandsFor cbuf samplePtr bytesLeft bytes)
    (hinsert : cbuf.insert sample = some next) :
    StandsFor next samplePtr bytesLeft (bytes ++ sample.encode) := by
  rcases hstands with ⟨hzero, hbytes⟩ | ⟨hpos, offset, hin⟩
  · left
    refine ⟨hzero, ?_⟩
    rw [cbuf.items_insert hinsert, bytesOf_append, hbytes]
  · exact .inr ⟨hpos, offset, hin.insert hinsert⟩

/-- What a saved state stands for is what it describes. -/
theorem StandsFor.eq_remaining {state : SampleReadState}
    (hstands : StandsFor cbuf state.samplePtr state.bytesLeft bytes) :
    bytes = remaining cbuf state := by
  unfold remaining
  rcases hstands with ⟨hzero, hbytes⟩ | ⟨hpos, offset, hin⟩
  · rw [if_pos hzero]
    exact hbytes
  · have hlen := hin.length_eq
    have hwhole : ((cbuf.buf cbuf.tail).encode.drop offset).length ≤ state.bytesLeft := by
      rw [List.length_drop]
      omega
    rw [if_neg (by omega), hin.samplePtr_eq, cbuf.items_eq_cons hin.count_pos, List.tail_cons,
      hin.bytes_eq]
    simp only [bytesAt]
    rw [List.take_of_length_le hwhole]

/-! ## The invariant -/

/-- A read is going on, and `bytes` are to be read. -/
structure Going (reader : CircbufReader) (call : ReadCall) (bytes : List UInt8) : Prop where
  total : reader.delivered ++ (call.copied ++ bytes) = bytesOf reader.inserted
  loop : call.point = .loop → StandsFor reader.cbuf call.samplePtr call.bytesLeft bytes
  completed : call.point = .completed → call.bytesLeft = 0 ∧ 0 < reader.cbuf.count ∧
    call.copied ≠ [] ∧ bytes = bytesOf reader.cbuf.incrementTail.items
  getTail : call.point = .getTail → call.bytesLeft = 0 ∧ bytes = bytesOf reader.cbuf.items
  /-- As long as nothing has been copied, the saved state is as good as the local one. -/
  saved : call.copied = [] →
    StandsFor reader.cbuf reader.state.samplePtr reader.state.bytesLeft bytes

/-- No read is going on, and `bytes` are to be read. -/
structure Between (reader : CircbufReader) (bytes : List UInt8) : Prop where
  total : reader.delivered ++ bytes = bytesOf reader.inserted
  saved : StandsFor reader.cbuf reader.state.samplePtr reader.state.bytesLeft bytes

/-- Every byte that was inserted has been delivered, copied or is to be read. -/
structure Accounted (reader : CircbufReader) : Prop where
  small : ∀ sample ∈ reader.cbuf.items, sample.encode.length < 2 ^ 32
  between : reader.call = none → ∃ bytes, Between reader bytes
  going : ∀ call, reader.call = some call → ∃ bytes, Going reader call bytes

/-- A copy takes the first of the bytes that are to be read. -/
theorem InSample.take_eq (hin : InSample cbuf samplePtr bytesLeft offset bytes) {n : ℕ}
    (hn : n ≤ bytesLeft) : (bytesAt cbuf samplePtr).take n = bytes.take n := by
  have hlen := hin.length_eq
  rw [hin.samplePtr_eq, hin.bytes_eq]
  simp only [bytesAt]
  rw [List.take_append_of_le_length]
  rw [List.length_drop]
  omega

/-- And leaves the others. -/
theorem InSample.drop_eq (hin : InSample cbuf samplePtr bytesLeft offset bytes) {n : ℕ}
    (hn : n ≤ bytesLeft) :
    bytes.drop n = (cbuf.buf cbuf.tail).encode.drop (offset + n) ++
      bytesOf cbuf.incrementTail.items := by
  have hlen := hin.length_eq
  have hle : n ≤ ((cbuf.buf cbuf.tail).encode.drop offset).length := by
    rw [List.length_drop]
    omega
  rw [hin.bytes_eq, List.drop_append_of_le_length hle, List.drop_drop]

variable {reader after : CircbufReader} {call : ReadCall}

/-- A copy that succeeds. -/
theorem Going.copy (hgoing : Going reader call bytes) (hcopies : copies call = true) :
    ∃ rest, Going { reader with call := some (copyStep reader.cbuf call) }
      (copyStep reader.cbuf call) rest := by
  obtain ⟨hpoint, hn⟩ : call.point = .loop ∧ 0 < min call.bytesLeft call.count := by
    simpa [copies] using hcopies
  obtain ⟨n, hndef⟩ : ∃ n, n = min call.bytesLeft call.count := ⟨_, rfl⟩
  rw [← hndef] at hn
  have hle : n ≤ call.bytesLeft := by omega
  rcases hgoing.loop hpoint with ⟨hzero, -⟩ | ⟨hpos, offset, hin⟩
  · omega
  have hlen := hin.length_eq
  have htake := hin.take_eq hle
  have hnonempty : call.copied ++ (bytesAt reader.cbuf call.samplePtr).take n ≠ [] := by
    have hbytes : (bytes.take n).length = n := by
      rw [List.length_take, hin.bytes_eq, List.length_append, List.length_drop]
      omega
    rw [htake]
    intro hnil
    have hempty := (List.append_eq_nil_iff.mp hnil).2
    rw [hempty] at hbytes
    simp only [List.length_nil] at hbytes
    omega
  refine ⟨bytes.drop n, ?_⟩
  simp only [copyStep, ← hndef]
  constructor
  · rw [← hgoing.total, htake, List.append_assoc, List.take_append_drop]
  · intro hloop
    have hmore : 0 < call.bytesLeft - n := by
      by_contra hnot
      simp [hnot] at hloop
    refine .inr ⟨hmore, offset + n, hin.count_pos, ?_, ?_, hin.drop_eq hle⟩
    · rw [hin.samplePtr_eq]
      rfl
    · dsimp only
      omega
  · intro hdone
    have hnone : call.bytesLeft - n = 0 := by
      by_contra hnot
      simp [Nat.pos_of_ne_zero hnot] at hdone
    refine ⟨hnone, hin.count_pos, hnonempty, ?_⟩
    rw [hin.drop_eq hle, List.drop_eq_nil_of_le (by omega), List.nil_append]
  · intro hget
    split at hget <;> cases hget
  · exact fun hnil => absurd hnil hnonempty

theorem Accounted.insert (hacc : Accounted reader) (hinsert : reader.cbuf.insert sample = some next)
    (hsmall : sample.encode.length < 2 ^ 32) :
    Accounted { reader with cbuf := next, inserted := reader.inserted ++ [sample] } := by
  have hitems := reader.cbuf.items_insert hinsert
  constructor
  · intro other hmem
    dsimp only at hmem
    rw [hitems] at hmem
    rcases List.mem_append.mp hmem with hmem | hmem
    · exact hacc.small other hmem
    · rw [List.mem_singleton.mp hmem]
      exact hsmall
  · intro hidle
    obtain ⟨bytes, htotal, hsaved⟩ := hacc.between hidle
    refine ⟨bytes ++ sample.encode, ?_, hsaved.insert hinsert⟩
    rw [bytesOf_append, ← htotal, List.append_assoc]
  · intro call hcall
    obtain ⟨bytes, hgoing⟩ := hacc.going call hcall
    refine ⟨bytes ++ sample.encode, ?_, ?_, ?_, ?_, ?_⟩
    · rw [bytesOf_append, ← hgoing.total]
      simp only [List.append_assoc]
    · exact fun hpoint => (hgoing.loop hpoint).insert hinsert
    · intro hpoint
      obtain ⟨hleft, hcount, hcopied, hbytes⟩ := hgoing.completed hpoint
      have hcount' : 0 < next.count := by
        rw [← next.length_items, hitems]
        simp
      rw [next.items_eq_cons hcount', reader.cbuf.items_eq_cons hcount, List.cons_append] at hitems
      refine ⟨hleft, hcount', hcopied, ?_⟩
      rw [hbytes, (List.cons.inj hitems).2, bytesOf_append]
    · intro hpoint
      obtain ⟨hleft, hbytes⟩ := hgoing.getTail hpoint
      refine ⟨hleft, ?_⟩
      rw [hitems, bytesOf_append, hbytes]
    · exact fun hnil => (hgoing.saved hnil).insert hinsert

/-- The sample at the tail is what is to be read next. -/
theorem standsFor_tail (hcount : 0 < cbuf.count) :
    StandsFor cbuf (some (cbuf.tail, 0))
      ((cbuf.buf cbuf.tail).data.length + sizeofDsmSampleHeader) (bytesOf cbuf.items) := by
  right
  refine ⟨by unfold sizeofDsmSampleHeader; omega, 0, hcount, rfl, ?_, ?_⟩
  · rw [DsmSample.length_encode]
    omega
  · rw [cbuf.items_eq_cons hcount, bytesOf_cons, List.drop_zero]

/-- The bytes left fit in the saved state. -/
theorem StandsFor.saved_eq (hstands : StandsFor cbuf samplePtr bytesLeft bytes)
    (hsmall : ∀ sample ∈ cbuf.items, sample.encode.length < 2 ^ 32) :
    bytesLeft % 2 ^ 32 = bytesLeft := by
  apply Nat.mod_eq_of_lt
  rcases hstands with ⟨hzero, -⟩ | ⟨-, offset, hin⟩
  · omega
  · have hlen := hin.length_eq
    have hlt := hsmall (cbuf.buf cbuf.tail) (by rw [cbuf.items_eq_cons hin.count_pos]; simp)
    omega

/-! ## Runs -/

/-- A copy fails only if the read has copied nothing yet. -/
def careful (reader : CircbufReader) : ReadAction → Bool
  | .fault => reader.call.all fun call => call.copied.isEmpty
  | _ => true

theorem Accounted.step {action : ReadAction} (hacc : Accounted reader)
    (hcareful : reader.careful action = true) (hstep : reader.step action = some after) :
    Accounted after := by
  cases action with
  | insert sample =>
      simp only [CircbufReader.step, insertSample] at hstep
      obtain ⟨next, hinsert, hnext⟩ := Option.bind_eq_some_iff.mp hstep
      split at hnext
      · next hsmall =>
          cases hnext
          exact hacc.insert hinsert hsmall
      · cases hnext
  | start count =>
      simp only [CircbufReader.step] at hstep
      split at hstep
      · cases hstep
      · next hidle =>
          cases hstep
          obtain ⟨bytes, htotal, hsaved⟩ := hacc.between hidle
          refine ⟨hacc.small, by simp, ?_⟩
          rintro call ⟨rfl⟩
          exact ⟨bytes, htotal, fun _ => hsaved, by simp, by simp, fun _ => hsaved⟩
  | copy =>
      simp only [CircbufReader.step] at hstep
      split at hstep
      · next call hcall =>
          split at hstep
          · next hcopies =>
              cases hstep
              obtain ⟨bytes, hgoing⟩ := hacc.going call hcall
              refine ⟨hacc.small, by simp, ?_⟩
              rintro call' ⟨rfl⟩
              exact hgoing.copy hcopies
          · cases hstep
      · cases hstep
  | fault =>
      simp only [CircbufReader.step] at hstep
      split at hstep
      · next call hcall =>
          split at hstep
          · cases hstep
            obtain ⟨bytes, hgoing⟩ := hacc.going call hcall
            have hnil : call.copied = [] := by simpa [careful, hcall] using hcareful
            refine ⟨hacc.small, fun _ => ⟨bytes, ?_, hgoing.saved hnil⟩, by simp⟩
            have htotal := hgoing.total
            rwa [hnil, List.nil_append] at htotal
          · cases hstep
      · cases hstep
  | incrementTail =>
      simp only [CircbufReader.step] at hstep
      split at hstep
      · next call hcall =>
          split at hstep
          · next hpoint =>
              cases hstep
              obtain ⟨bytes, hgoing⟩ := hacc.going call hcall
              obtain ⟨hleft, hcount, hcopied, hbytes⟩ := hgoing.completed hpoint
              refine ⟨?_, by simp, ?_⟩
              · intro sample hmem
                apply hacc.small sample
                rw [reader.cbuf.items_eq_cons hcount]
                exact List.mem_cons_of_mem _ hmem
              · rintro call' ⟨rfl⟩
                exact ⟨bytes, hgoing.total, by simp, by simp, fun _ => ⟨hleft, hbytes⟩,
                  fun hnil => absurd hnil hcopied⟩
          · cases hstep
      · cases hstep
  | getTail =>
      simp only [CircbufReader.step] at hstep
      split at hstep
      · next call hcall =>
          obtain ⟨bytes, hgoing⟩ := hacc.going call hcall
          split at hstep
          · next hpoint =>
              cases hstep
              refine ⟨hacc.small, by simp, ?_⟩
              rintro call' ⟨rfl⟩
              refine ⟨bytes, hgoing.total, by simp, by simp, fun _ => ⟨hpoint.2.2, ?_⟩,
                hgoing.saved⟩
              rcases hgoing.loop hpoint.1 with ⟨-, hbytes⟩ | ⟨hpos, -⟩
              · exact hbytes
              · omega
          · split at hstep
            · next hpoint =>
                obtain ⟨hleft, hbytes⟩ := hgoing.getTail hpoint
                split at hstep
                · next slot hslot =>
                    cases hstep
                    obtain ⟨hcount, rfl⟩ : 0 < reader.cbuf.count ∧ reader.cbuf.tail = slot := by
                      simpa [CircBuf.getTail] using hslot
                    refine ⟨hacc.small, by simp, ?_⟩
                    rintro call' ⟨rfl⟩
                    refine ⟨bytes, hgoing.total, fun _ => ?_, by simp, by simp, hgoing.saved⟩
                    rw [hbytes]
                    exact standsFor_tail hcount
                · cases hstep
            · cases hstep
      · cases hstep
  | finish =>
      simp only [CircbufReader.step] at hstep
      split at hstep
      · next call hcall =>
          split at hstep
          · next hfinishes =>
              cases hstep
              obtain ⟨bytes, hgoing⟩ := hacc.going call hcall
              have hstands : StandsFor reader.cbuf call.samplePtr call.bytesLeft bytes := by
                have hpoint : (call.point = .loop ∧ call.count = 0) ∨
                    (call.point = .getTail ∧ reader.cbuf.getTail = none) := by
                  simpa [finishes] using hfinishes
                rcases hpoint with ⟨hpoint, -⟩ | ⟨hpoint, -⟩
                · exact hgoing.loop hpoint
                · exact .inl (hgoing.getTail hpoint)
              refine ⟨hacc.small, fun _ => ⟨bytes, ?_, ?_⟩, by simp⟩
              · dsimp only
                rw [List.append_assoc]
                exact hgoing.total
              · dsimp only [savedState]
                rw [hstands.saved_eq hacc.small]
                exact hstands
          · cases hstep
      · cases hstep

/-- An empty buffer of `2 ^ k` slots, and a reader that has just been opened. -/
def opened (k : ℕ) (hk : k ≤ 30) (slots : ℕ → DsmSample) : CircbufReader :=
  { cbuf :=
      { size := 2 ^ k, buf := slots, head := 0, tail := 0, size_pow := ⟨k, hk, rfl⟩
        head_lt := Nat.two_pow_pos k, tail_lt := Nat.two_pow_pos k }
    state := ⟨none, 0⟩
    call := none
    inserted := []
    delivered := [] }

theorem accounted_opened (k : ℕ) (hk : k ≤ 30) (slots : ℕ → DsmSample) :
    Accounted (opened k hk slots) := by
  have hitems : (opened k hk slots).cbuf.items = [] := by
    apply List.eq_nil_of_length_eq_zero
    rw [CircBuf.length_items, CircBuf.count_eq]
    simp [opened]
  refine ⟨by rw [hitems]; simp, fun _ => ⟨[], rfl, .inl ⟨rfl, ?_⟩⟩, by simp [opened]⟩
  rw [hitems]
  rfl

/-- **Every byte is delivered once**, in every run in which a copy fails only if its read has copied
nothing yet: what has been delivered is the first of what was inserted, and between two reads the
saved state and the buffer stand for the rest. -/
theorem delivered_once {k : ℕ} {hk : k ≤ 30} {slots : ℕ → DsmSample} {reader : CircbufReader}
    (hrun : Reaches (restrict careful step) (opened k hk slots) reader) :
    reader.delivered <+: bytesOf reader.inserted ∧
      (reader.call = none →
        reader.delivered ++ remaining reader.cbuf reader.state = bytesOf reader.inserted) := by
  have hacc : Accounted reader := by
    apply hrun.invariant (accounted_opened k hk slots)
    intro before action next hbefore hstep
    obtain ⟨hcareful, hstep⟩ := restrict_eq_some.mp hstep
    exact hbefore.step hcareful hstep
  constructor
  · cases hcall : reader.call with
    | none =>
        obtain ⟨bytes, htotal, -⟩ := hacc.between hcall
        exact ⟨bytes, htotal⟩
    | some call =>
        obtain ⟨bytes, hgoing⟩ := hacc.going call hcall
        exact ⟨call.copied ++ bytes, hgoing.total⟩
  · intro hidle
    obtain ⟨bytes, htotal, hsaved⟩ := hacc.between hidle
    rw [← hsaved.eq_remaining]
    exact htotal

/-- A sample of one byte. -/
def oneByte (byte : UInt8) : DsmSample := ⟨0, [byte], by decide, by decide, by simp⟩

/-- A read whose first copy fails, and one of four bytes after it. -/
def faultFirst : List ReadAction :=
  [.insert (oneByte 1), .insert (oneByte 2), .start 100, .getTail, .getTail, .fault,
    .start 4, .getTail, .getTail, .copy, .finish]

theorem delivered_once_faultFirst :
    ∃ reader : CircbufReader, reader.delivered = [0, 0, 0, 0] ∧
      reader.delivered ++ remaining reader.cbuf reader.state = bytesOf reader.inserted := by
  have hrun : ((runSteps (restrict careful step) (opened 2 (by decide) fun _ => oneByte 0)
      faultFirst).any fun reader =>
        decide (reader.delivered = [0, 0, 0, 0]) && reader.call.isNone) = true := by
    decide +kernel
  obtain ⟨reader, hreach, hcheck⟩ := exists_reaches_of_any hrun
  simp only [Bool.and_eq_true, decide_eq_true_eq, Option.isNone_iff_eq_none] at hcheck
  exact ⟨reader, hcheck.1, (delivered_once hreach).2 hcheck.2⟩

/-- A read that has copied the first sample when the copy of the second fails, and one after it. -/
def faultSecond : List ReadAction :=
  [.insert (oneByte 1), .insert (oneByte 2), .start 100, .getTail, .getTail, .copy, .incrementTail,
    .getTail, .fault, .start 100, .getTail, .getTail, .copy, .incrementTail, .finish]

/-- The first sample is lost. -/
theorem not_delivered_faultSecond :
    ∃ reader : CircbufReader, Reaches step (opened 2 (by decide) fun _ => oneByte 0) reader ∧
      ¬ reader.delivered <+: bytesOf reader.inserted := by
  have hrun : ((runSteps step (opened 2 (by decide) fun _ => oneByte 0) faultSecond).any
      fun reader => !reader.delivered.isPrefixOf (bytesOf reader.inserted)) = true := by
    decide +kernel
  obtain ⟨reader, hreach, hcheck⟩ := exists_reaches_of_any hrun
  refine ⟨reader, hreach, ?_⟩
  intro hfront
  rw [← List.isPrefixOf_iff_prefix] at hfront
  simp [hfront] at hcheck

end CircbufReader

end Nidas.Linux
