import Nidas.Core.SampleHeader
import Nidas.Core.SampleInputHeader

/-!
# The sample input stream

`SampleInputStream` (`SampleInputStream.cc`) reads samples from an `IOStream`.
It can stop at any byte of a header or of the data of a sample and go on later,
it screens headers with a `BadSampleFilter`, and it starts over when the channel
reports a new input.

The bytes of `_sheader` up to `_hptr` are `sheader`, and `_headerToRead` is kept
as the source keeps it, as an unsigned 64 bit number that is counted down.  The
data of `_samp` up to `_dptr` are its `data`, with `_dataToRead` counted down and
`dptrNull` saying that `_dptr` started as a null pointer: a sample without data
that the pool had to make new has no data array.  A store through a pointer that
was null and has been counted up is `wild`; nothing is said about what happens
then.  File offsets are not bounded, log messages and `_last_name` are left out.

`headersParsed` counts the input headers that have been parsed.  The source does
not keep this number.
-/

namespace Nidas.Dynld

open Core

/-! ## Block statistics -/

/-- `BlockStats` -/
structure BlockStats where
  startTime : ℤ := longLongMin
  endTime : ℤ := longLongMax
  good : Bool := true
  nsamples : ℕ := 0
  blockStart : ℤ := 0
  nbytes : ℤ := 0
  lastGoodSampleSize : ℕ := 0
  deriving DecidableEq, Repr

namespace BlockStats

/-- `BlockStats::addGoodSample`, without its result, which is only logged -/
def addGoodSample (timeTag : ℤ) (dataByteLength : ℕ) (offset : ℤ) (block : BlockStats) :
    BlockStats :=
  let block :=
    if !block.good || block.nbytes = 0 then
      { good := true, blockStart := offset, startTime := timeTag }
    else block
  { block with
    endTime := timeTag
    nsamples := block.nsamples + 1
    lastGoodSampleSize := dataByteLength
    nbytes := block.nbytes + (sampleHeaderSize + dataByteLength) }

/-- `BlockStats::startBadBlock` -/
def startBadBlock (offset : ℤ) (block : BlockStats) : BlockStats :=
  { good := false, blockStart := offset, startTime := block.endTime, nbytes := 1 }

/-- `BlockStats::endBadBlock` -/
def endBadBlock (timeTag : Option ℤ) (offset : ℤ) (block : BlockStats) : BlockStats :=
  { block with endTime := timeTag.getD block.endTime, nbytes := offset - block.blockStart }

/-- What is known of the block is that it is a bad one. -/
def bad (block : BlockStats) : Bool := !block.good && block.nbytes ≠ 0

variable {block : BlockStats} {timeTag offset : ℤ} {dataByteLength : ℕ}

@[simp] theorem addGoodSample_good : (block.addGoodSample timeTag dataByteLength offset).good = true := by
  unfold addGoodSample
  dsimp only
  split_ifs with hreset
  · rfl
  · rw [Bool.or_eq_true, not_or, Bool.not_eq_true, Bool.not_eq_false'] at hreset
    exact hreset.1

theorem addGoodSample_nbytes (hnbytes : block.good = true → 0 ≤ block.nbytes) :
    0 < (block.addGoodSample timeTag dataByteLength offset).nbytes := by
  unfold addGoodSample
  dsimp only
  split_ifs with hreset
  · dsimp only [sampleHeaderSize]
    omega
  · rw [Bool.or_eq_true, not_or, Bool.not_eq_true, Bool.not_eq_false'] at hreset
    have hle := hnbytes hreset.1
    dsimp only [sampleHeaderSize]
    omega

@[simp] theorem endBadBlock_good {time : Option ℤ} : (block.endBadBlock time offset).good = block.good :=
  rfl

end BlockStats

/-! ## State -/

/-- `_samp`: a sample with as much of its data as has been read. -/
structure InSample where
  timeTag : ℤ
  type : SampleType
  id : ℕ
  dataByteLength : ℕ
  data : List UInt8
  deriving DecidableEq, Repr

/-- The sample object for a header of the given type. -/
def InSample.ofHeader (header : SampleHeader) (type : SampleType) : InSample :=
  ⟨header.timeTag, type, header.id, header.dataByteLength, []⟩

@[simp] theorem InSample.ofHeader_dataByteLength (header : SampleHeader) (type : SampleType) :
    (InSample.ofHeader header type).dataByteLength = header.dataByteLength := rfl

/-- The sample that is handed on. -/
def InSample.toSample (samp : InSample) : Sample :=
  ⟨samp.timeTag, samp.type, samp.id, samp.data⟩

/-- The members of a `SampleInputStream`. -/
structure SampleInputStream where
  io : IOStream
  expectHeader : Bool := true
  bsf : BadSampleFilter := {}
  inputHeader : SampleInputHeader := {}
  inputHeaderParsed : Bool := false
  sheader : List UInt8 := []
  headerToRead : ℕ := sampleHeaderSize
  samp : Option InSample := none
  sampPending : Option InSample := none
  dataToRead : ℕ := 0
  dptrNull : Bool := false
  skipSample : Bool := false
  block : BlockStats := {}
  badSamples : ℕ := 0
  goodSamples : ℕ := 0
  ateof : Bool := false
  poolCalls : ℕ := 0
  headersParsed : ℕ := 0
  deriving DecidableEq, Repr

namespace SampleInputStream

/-- A stream at its start. -/
def ofChannel (expectHeader : Bool) (bsf : BadSampleFilter) (reads : List ChannelRead) :
    SampleInputStream :=
  { io := { reads := reads }, expectHeader := expectHeader, bsf := bsf }

/-- `SampleInputStream::closeBlocks` -/
def closeBlocks (stream : SampleInputStream) : SampleInputStream :=
  if stream.badSamples ≠ 0 ∨ stream.goodSamples ≠ 0 then
    { stream with block := {}, badSamples := 0, goodSamples := 0 }
  else stream

/-- `SampleInputStream::handleNewInput` -/
def handleNewInput (stream : SampleInputStream) : SampleInputStream :=
  let stream := stream.closeBlocks
  { stream with io := stream.io.backup, inputHeaderParsed := false }

/-! ## Reading -/

/-- `ReadResult`, with the bytes that were stored at the pointer. -/
structure ReadResult where
  len : ℕ := 0
  eof : Bool := false
  newinput : Bool := false
  stored : List UInt8 := []
  deriving DecidableEq, Repr

/-- `SampleInputStream::read`; `ptr` says whether the pointer is not null. -/
def read (keepreading ptr : Bool) (lentoread : ℕ) (stream : SampleInputStream) :
    ReadResult × SampleInputStream :=
  let (rr, stream) : ReadResult × SampleInputStream :=
    if keepreading then
      if ptr then
        let transfer := stream.io.transfer lentoread
        if transfer.eof then
          ({ eof := true }, { stream with io := transfer.io, ateof := true })
        else
          ({ len := transfer.data.length, stored := transfer.data },
            { stream with io := transfer.io })
      else
        match stream.io.read with
        | (none, io) => ({ eof := true }, { stream with io := io, ateof := true })
        | (some len, io) => ({ len := len }, { stream with io := io })
    else if ptr then
      let (data, io) := stream.io.readBuf lentoread
      ({ len := data.length, stored := data }, { stream with io := io })
    else ({}, stream)
  let rr := { rr with newinput := stream.io.newInput }
  if rr.newinput then (rr, stream.handleNewInput) else (rr, stream)

/-- A `size_t` after a subtraction. -/
def sizeSub (value len : ℕ) : ℕ :=
  (value + 2 ^ 64 - len % 2 ^ 64) % 2 ^ 64

/-- What `readBlock` leaves: the block with its count, or a store through a null
pointer that was counted up. -/
inductive Block where
  | wild
  | block (stored : List UInt8) (lentoread : ℕ) (rr : ReadResult) (stream : SampleInputStream)

/-- A block with the bytes of an earlier read in front. -/
def Block.prepend (data : List UInt8) : Block → Block
  | .wild => .wild
  | .block stored lentoread rr stream => .block (data ++ stored) lentoread rr stream

/-- The loop of `SampleInputStream::readBlock`.  A turn that does not finish has
met an empty read of the channel. -/
def readBlockLoop (keepreading ptr : Bool) : ℕ → ℕ → SampleInputStream → Block
  | 0, _, _ => .wild
  | fuel + 1, lentoread, stream =>
      let (rr, stream) := stream.read keepreading ptr lentoread
      let lentoread := sizeSub lentoread rr.len
      if keepreading && decide (lentoread > 0) && !rr.eof && !rr.newinput then
        -- the pointer has been counted up by rr.len
        if !ptr && rr.len ≠ 0 then .wild
        else (readBlockLoop keepreading ptr fuel lentoread stream).prepend rr.stored
      else .block rr.stored lentoread rr stream

/-- `SampleInputStream::readBlock` -/
def readBlock (keepreading ptr : Bool) (lentoread : ℕ) (stream : SampleInputStream) : Block :=
  readBlockLoop keepreading ptr (stream.io.reads.length + 2) lentoread stream

/-! ## The input header -/

/-- How reading the input header ends. -/
inductive HeaderRead where
  | parsed (stream : SampleInputStream)
  | eof (stream : SampleInputStream)
  | exception (what : String) (stream : SampleInputStream)

/-- `SampleInputStream::parseInputHeader`, with the text of an `IOException`. -/
def parseInputHeader (stream : SampleInputStream) : Option String × SampleInputStream :=
  let stream :=
    { stream with
      samp := none
      headerToRead := sampleHeaderSize
      sheader := []
      dataToRead := 0 }
  if !stream.expectHeader then (none, { stream with inputHeaderParsed := true })
  else
    let parse := stream.inputHeader.parse stream.io
    let stream := { stream with inputHeader := parse.header, io := parse.io }
    match parse.result with
    | .complete =>
        (none,
          { stream with inputHeaderParsed := true, headersParsed := stream.headersParsed + 1 })
    | .more => (none, { stream with inputHeaderParsed := false })
    | .exception what =>
        if !stream.bsf.skipNidasHeader then (some what, stream)
        else (none, { stream with inputHeaderParsed := true, io := stream.io.backup })

/-- The loop of `SampleInputStream::readInputHeader`.  A header that is not complete
has used up the buffer. -/
def readInputHeaderLoop : ℕ → SampleInputStream → HeaderRead
  | 0, stream => if stream.inputHeaderParsed then .parsed stream else .eof stream
  | fuel + 1, stream =>
      if stream.inputHeaderParsed then .parsed stream
      else
        match stream.io.read with
        | (none, io) => .eof { stream with io := io }
        | (some _, io) =>
            match parseInputHeader { stream with io := io } with
            | (some what, stream) => .exception what stream
            | (none, stream) => readInputHeaderLoop fuel stream

/-- `SampleInputStream::readInputHeader` -/
def readInputHeader (stream : SampleInputStream) : HeaderRead :=
  readInputHeaderLoop (stream.io.reads.length + 3) stream

/-! ## Samples -/

/-- `SampleInputStream::sampleFromHeader`.  `fresh` tells for each call of the pool
whether it has to make a new sample. -/
def sampleFromHeader (fresh : ℕ → Bool) (stream : SampleInputStream) : SampleInputStream :=
  let sheader := SampleHeader.ofBytes stream.sheader
  let offset := stream.io.nbytesIn - sampleHeaderSize
  match stream.bsf.accept sheader with
  | none =>
      { stream with
        samp := none
        skipSample := false
        badSamples := stream.badSamples + 1
        block :=
          if stream.block.good && stream.block.nbytes ≠ 0 then stream.block.startBadBlock offset
          -- append to the existing bad block
          else stream.block.endBadBlock none offset
        -- bad header, shift left by one byte, read next byte
        sheader := stream.sheader.drop 1
        headerToRead := 1 }
  | some type =>
      let null := decide (sheader.dataByteLength = 0) && fresh stream.poolCalls
      if stream.block.bad && !stream.skipSample then
        -- the first good sample immediately after a bad block
        { stream with
          samp := some ⟨0, type, 0, sheader.dataByteLength, []⟩
          dptrNull := null
          poolCalls := stream.poolCalls + 1
          skipSample := true }
      else
        let block :=
          if stream.block.bad then
            stream.block.endBadBlock (some sheader.timeTag) offset
          else stream.block
        { stream with
          samp := some (.ofHeader sheader type)
          dptrNull := null
          poolCalls := stream.poolCalls + 1
          skipSample := false
          goodSamples := stream.goodSamples + 1
          block := block.addGoodSample sheader.timeTag sheader.dataByteLength offset }

section Header

variable {fresh : ℕ → Bool} {stream : SampleInputStream} {type : SampleType}

theorem sampleFromHeader_of_none
    (hnone : stream.bsf.accept (SampleHeader.ofBytes stream.sheader) = none) :
    sampleFromHeader fresh stream =
      { stream with
        samp := none
        skipSample := false
        badSamples := stream.badSamples + 1
        block :=
          if stream.block.good && stream.block.nbytes ≠ 0 then
            stream.block.startBadBlock (stream.io.nbytesIn - sampleHeaderSize)
          else stream.block.endBadBlock none (stream.io.nbytesIn - sampleHeaderSize)
        sheader := stream.sheader.drop 1
        headerToRead := 1 } := by
  unfold sampleFromHeader
  dsimp only
  rw [hnone]

theorem sampleFromHeader_of_skip
    (hsome : stream.bsf.accept (SampleHeader.ofBytes stream.sheader) = some type)
    (hbad : stream.block.bad = true) (hskip : stream.skipSample = false) :
    sampleFromHeader fresh stream =
      { stream with
        samp := some ⟨0, type, 0, (SampleHeader.ofBytes stream.sheader).dataByteLength, []⟩
        dptrNull := decide ((SampleHeader.ofBytes stream.sheader).dataByteLength = 0) &&
          fresh stream.poolCalls
        poolCalls := stream.poolCalls + 1
        skipSample := true } := by
  unfold sampleFromHeader
  dsimp only
  rw [hsome, hbad, hskip]
  rfl

theorem sampleFromHeader_of_some
    (hsome : stream.bsf.accept (SampleHeader.ofBytes stream.sheader) = some type)
    (hgood : stream.block.bad = true → stream.skipSample = true) :
    sampleFromHeader fresh stream =
      { stream with
        samp := some (.ofHeader (SampleHeader.ofBytes stream.sheader) type)
        dptrNull := decide ((SampleHeader.ofBytes stream.sheader).dataByteLength = 0) &&
          fresh stream.poolCalls
        poolCalls := stream.poolCalls + 1
        skipSample := false
        goodSamples := stream.goodSamples + 1
        block :=
          (if stream.block.bad then
            stream.block.endBadBlock (some (SampleHeader.ofBytes stream.sheader).timeTag)
              (stream.io.nbytesIn - sampleHeaderSize)
          else stream.block).addGoodSample (SampleHeader.ofBytes stream.sheader).timeTag
            (SampleHeader.ofBytes stream.sheader).dataByteLength
            (stream.io.nbytesIn - sampleHeaderSize) } := by
  unfold sampleFromHeader
  dsimp only
  rw [hsome]
  dsimp only
  rw [if_neg]
  rw [Bool.and_eq_true, Bool.not_eq_true', not_and, Bool.not_eq_false]
  exact hgood

end Header

/-- How a call of `nextSample` ends. -/
inductive Outcome where
  | sample (samp : Sample)
  | null
  | eof
  | exception (what : String)
  | wild
  deriving DecidableEq, Repr

/-- One turn of the loop of `nextSample` returns or goes on; `newinput` is what is
used of the last `ReadResult`. -/
inductive Turn where
  | ret (outcome : Outcome) (stream : SampleInputStream)
  | again (newinput : Bool) (stream : SampleInputStream)

/-- `SampleInputStream::handleEOF` -/
def handleEOF (keepreading : Bool) (stream : SampleInputStream) : Turn :=
  match stream.sampPending with
  | some samp => .ret (.sample samp.toSample) { stream with sampPending := none }
  | none => if keepreading then .ret .eof stream else .ret .null stream

/-- The end of a turn: the data of the sample are complete. -/
def sampleComplete (searching : Bool) (stream : SampleInputStream) : Turn :=
  let samp := if stream.skipSample || searching then none else stream.samp
  -- next read is the next header
  let stream :=
    { stream with samp := none, headerToRead := sampleHeaderSize, sheader := [] }
  if stream.bsf.filterBadSamples then
    -- hold the current sample as pending
    .again false { stream with sampPending := samp }
  else
    match samp with
    | some samp => .ret (.sample samp.toSample) stream
    | none => .again false stream

/-- After a block of data has been read. -/
def dataRead (searching : Bool) (before : SampleInputStream) : Block → Turn
  | .wild => .ret .wild before
  | .block stored lentoread rr stream =>
      let stream :=
        { stream with
          dataToRead := lentoread
          samp := stream.samp.map fun samp => { samp with data := samp.data ++ stored } }
      if rr.eof || rr.newinput then .again rr.newinput stream
      else if stream.dataToRead > 0 then .ret .null stream
      else sampleComplete searching stream

/-- From where a header has been accepted: read the data. -/
def readData (keepreading : Bool) (search : Option ℤ) (stream : SampleInputStream) : Turn :=
  match stream.sampPending with
  -- a good sample is pending: it was succeeded by a good header
  | some samp => .ret (.sample samp.toSample) { stream with sampPending := none }
  | none =>
      match stream.samp with
      | none => sampleComplete search.isSome stream
      | some samp =>
          if !stream.skipSample && search.any (fun time => decide (samp.timeTag ≥ time)) then
            .ret .null stream
          else
            dataRead search.isSome stream
              (readBlock keepreading (!stream.dptrNull) stream.dataToRead stream)

/-- The header is complete: get a sample for it. -/
def headerComplete (fresh : ℕ → Bool) (keepreading : Bool) (search : Option ℤ)
    (stream : SampleInputStream) : Turn :=
  let stream := sampleFromHeader fresh stream
  match stream.samp with
  -- corrupt data: any pending sample needs to be dropped
  | none => .again false { stream with sampPending := none }
  | some samp => readData keepreading search { stream with dataToRead := samp.dataByteLength }

/-- After a part of a header has been read. -/
def headerRead (fresh : ℕ → Bool) (keepreading : Bool) (search : Option ℤ)
    (before : SampleInputStream) : Block → Turn
  | .wild => .ret .wild before
  | .block stored lentoread rr stream =>
      let stream :=
        { stream with headerToRead := lentoread, sheader := stream.sheader ++ stored }
      if rr.eof || rr.newinput then .again rr.newinput stream
      else if stream.headerToRead > 0 then .ret .null stream
      else headerComplete fresh keepreading search stream

/-- From where the input header has been parsed: read a header if one is needed. -/
def readHeader (fresh : ℕ → Bool) (keepreading : Bool) (search : Option ℤ)
    (stream : SampleInputStream) : Turn :=
  if stream.headerToRead > 0 then
    headerRead fresh keepreading search stream
      (readBlock keepreading true stream.headerToRead stream)
  else readData keepreading search stream

/-- One turn of the loop of `SampleInputStream::nextSample`. -/
def nextSampleTurn (fresh : ℕ → Bool) (keepreading : Bool) (search : Option ℤ) (newinput : Bool)
    (stream : SampleInputStream) : Turn :=
  if stream.ateof then handleEOF keepreading stream
  else
    match newinput, stream.sampPending with
    | true, some samp =>
        -- hit end of a file, so we can send any currently pending sample
        .ret (.sample samp.toSample) { stream with sampPending := none }
    | _, _ =>
        if !stream.inputHeaderParsed then
          match readInputHeader stream with
          | .eof stream => .ret .eof stream
          | .exception what stream => .ret (.exception what) stream
          | .parsed stream => readHeader fresh keepreading search stream
        else readHeader fresh keepreading search stream

/-- `SampleInputStream::nextSample` with a bound on the turns of its loop: none if
they are not enough. -/
def nextSample (fresh : ℕ → Bool) (keepreading : Bool) (search : Option ℤ) :
    ℕ → Bool → SampleInputStream → Option (Outcome × SampleInputStream)
  | 0, _, _ => none
  | turns + 1, newinput, stream =>
      match nextSampleTurn fresh keepreading search newinput stream with
      | .ret outcome stream => some (outcome, stream)
      | .again newinput stream => nextSample fresh keepreading search turns newinput stream

/-- `SampleInputStream::readSample` -/
def readSample (fresh : ℕ → Bool) (turns : ℕ) (stream : SampleInputStream) :
    Option (Outcome × SampleInputStream) :=
  nextSample fresh true none turns false stream

/-- Repeated `readSample()`: the samples that are returned, and how the first call
ends that does not return one. -/
inductive Reads (fresh : ℕ → Bool) :
    SampleInputStream → List Sample → Outcome → SampleInputStream → Prop where
  | stop {stream after : SampleInputStream} {outcome : Outcome} (turns : ℕ)
      (hcall : readSample fresh turns stream = some (outcome, after))
      (hstop : ∀ samp, outcome ≠ .sample samp) : Reads fresh stream [] outcome after
  | sample {stream after last : SampleInputStream} {samp : Sample} {rest : List Sample}
      {outcome : Outcome} (turns : ℕ)
      (hcall : readSample fresh turns stream = some (.sample samp, after))
      (hrest : Reads fresh after rest outcome last) :
      Reads fresh stream (samp :: rest) outcome last

/-! ## Calls are deterministic -/

/-- More turns do not change a result. -/
theorem nextSample_add {fresh : ℕ → Bool} {keepreading : Bool} {search : Option ℤ}
    {result : Outcome × SampleInputStream} (extra : ℕ) :
    ∀ {turns : ℕ} {newinput : Bool} {stream : SampleInputStream},
      nextSample fresh keepreading search turns newinput stream = some result →
      nextSample fresh keepreading search (turns + extra) newinput stream = some result := by
  intro turns
  induction turns with
  | zero => intro newinput stream hcall; cases hcall
  | succ turns ih =>
      intro newinput stream hcall
      rw [Nat.succ_add]
      rw [nextSample] at hcall ⊢
      cases hturn : nextSampleTurn fresh keepreading search newinput stream with
      | ret outcome after => rwa [hturn] at hcall
      | again newinput after =>
          rw [hturn] at hcall
          exact ih hcall

theorem readSample_det {fresh : ℕ → Bool} {turns turns' : ℕ} {stream : SampleInputStream}
    {result result' : Outcome × SampleInputStream}
    (hcall : readSample fresh turns stream = some result)
    (hcall' : readSample fresh turns' stream = some result') : result = result' := by
  have hmore := nextSample_add turns' hcall
  have hmore' := nextSample_add turns hcall'
  rw [Nat.add_comm, hmore] at hmore'
  exact Option.some.inj hmore'

/-- With nothing pending it does not matter how a turn has ended before. -/
theorem nextSampleTurn_newinput {fresh : ℕ → Bool} {keepreading newinput : Bool} {search : Option ℤ}
    {stream : SampleInputStream} (hpending : stream.sampPending = none) :
    nextSampleTurn fresh keepreading search newinput stream =
      nextSampleTurn fresh keepreading search false stream := by
  unfold nextSampleTurn
  rw [hpending]
  cases newinput <;> rfl

theorem readSample_of_again {fresh : ℕ → Bool} {turns : ℕ} {newinput : Bool}
    {stream after : SampleInputStream}
    (hturn : nextSampleTurn fresh true none false stream = .again newinput after)
    (hpending : after.sampPending = none) :
    readSample fresh (turns + 1) stream = readSample fresh turns after := by
  rw [readSample, nextSample, hturn]
  cases turns with
  | zero => rfl
  | succ turns =>
      dsimp only
      rw [nextSample, nextSampleTurn_newinput hpending, readSample, nextSample]

/-- A turn that goes on, with nothing pending, changes nothing of what is read. -/
theorem reads_again_iff {fresh : ℕ → Bool} {newinput : Bool} {stream after last : SampleInputStream}
    {samples : List Sample} {outcome : Outcome}
    (hturn : nextSampleTurn fresh true none false stream = .again newinput after)
    (hpending : after.sampPending = none) :
    Reads fresh stream samples outcome last ↔ Reads fresh after samples outcome last := by
  constructor
  · intro hreads
    cases hreads with
    | stop turns hcall hstop =>
        cases turns with
        | zero => cases hcall
        | succ turns => exact .stop turns ((readSample_of_again hturn hpending).symm.trans hcall) hstop
    | sample turns hcall hrest =>
        cases turns with
        | zero => cases hcall
        | succ turns =>
            exact .sample turns ((readSample_of_again hturn hpending).symm.trans hcall) hrest
  · intro hreads
    cases hreads with
    | stop turns hcall hstop =>
        exact .stop (turns + 1) ((readSample_of_again hturn hpending).trans hcall) hstop
    | sample turns hcall hrest =>
        exact .sample (turns + 1) ((readSample_of_again hturn hpending).trans hcall) hrest

/-- Only the first turn of a call looks at the stream. -/
theorem Reads.congr {fresh : ℕ → Bool} {stream stream' last : SampleInputStream}
    {samples : List Sample} {outcome : Outcome}
    (hturn : nextSampleTurn fresh true none false stream =
      nextSampleTurn fresh true none false stream')
    (hreads : Reads fresh stream samples outcome last) : Reads fresh stream' samples outcome last := by
  have hcall : ∀ turns, readSample fresh turns stream = readSample fresh turns stream' := by
    intro turns
    cases turns with
    | zero => rfl
    | succ turns => rw [readSample, readSample, nextSample, nextSample, hturn]
  cases hreads with
  | stop turns hcalled hstop => exact .stop turns ((hcall turns).symm.trans hcalled) hstop
  | sample turns hcalled hrest => exact .sample turns ((hcall turns).symm.trans hcalled) hrest

/-- After a call that returns a sample the rest is read. -/
theorem Reads.of_sample {fresh : ℕ → Bool} {turns : ℕ} {stream after last : SampleInputStream}
    {samp : Sample} {samples : List Sample} {outcome : Outcome}
    (hreads : Reads fresh stream samples outcome last)
    (hcall : readSample fresh turns stream = some (.sample samp, after)) :
    ∃ rest, samples = samp :: rest ∧ Reads fresh after rest outcome last := by
  cases hreads with
  | stop turns' hcall' hstop =>
      cases readSample_det hcall hcall'
      exact absurd rfl (hstop samp)
  | sample turns' hcall' hrest =>
      cases readSample_det hcall hcall'
      exact ⟨_, rfl, hrest⟩

/-- A call that does not return a sample is the last one. -/
theorem Reads.of_stop {fresh : ℕ → Bool} {turns : ℕ} {stream after last : SampleInputStream}
    {samples : List Sample} {outcome outcome' : Outcome}
    (hreads : Reads fresh stream samples outcome last)
    (hcall : readSample fresh turns stream = some (outcome', after))
    (hstop : ∀ samp, outcome' ≠ .sample samp) : samples = [] ∧ outcome = outcome' := by
  cases hreads with
  | stop turns' hcall' _ =>
      cases readSample_det hcall hcall'
      exact ⟨rfl, rfl⟩
  | sample turns' hcall' hrest =>
      cases readSample_det hcall hcall'
      exact absurd rfl (hstop _)

end SampleInputStream

end Nidas.Dynld
