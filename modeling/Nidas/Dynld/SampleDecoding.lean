import Nidas.Dynld.BlockReading

/-!
# Decoding an archive

With the bad sample filter off and no input header, repeated `readSample()`
returns the samples that were encoded, whatever the reads of the channel are.
The one thing that can go wrong is a sample without data.  When its sample object
is new it has no data array, so `readBlock` is given a null pointer, and `read`
takes that as the request to fill the buffer.  If the buffer is empty, the
channel is read: at the end of the channel the sample is lost, and a read that
returns bytes is subtracted from a count of zero.  `ZeroLengthSafe` says that this
does not happen.
-/

namespace Nidas.Dynld

open Core Lib

namespace SampleInputStream

variable {fresh : ℕ → Bool} {stream : SampleInputStream} {samp : Sample}

/-! ## Between two samples -/

/-- The stream stands before a header, and only good samples have been seen. -/
structure AtHeader (stream : SampleInputStream) : Prop where
  parsed : stream.inputHeaderParsed = true
  headerToRead : stream.headerToRead = sampleHeaderSize
  sheader : stream.sheader = []
  samp : stream.samp = none
  sampPending : stream.sampPending = none
  ateof : stream.ateof = false
  filter : stream.bsf.filterBadSamples = false
  good : stream.block.good = true

/-- The counts of what is to be read are what is missing. -/
def Counted (stream : SampleInputStream) : Prop :=
  stream.headerToRead + stream.sheader.length = sampleHeaderSize ∧
    ∀ samp, stream.samp = some samp → stream.dataToRead + samp.data.length = samp.dataByteLength

theorem AtHeader.counted (hat : AtHeader stream) : Counted stream := by
  constructor
  · rw [hat.headerToRead, hat.sheader]
    rfl
  · intro samp hsamp
    rw [hat.samp] at hsamp
    cases hsamp

/-- The sample object for a header that has just been read. -/
def started (samp : Sample) : InSample :=
  ⟨samp.timeTag, samp.type, samp.id, samp.data.length, []⟩

/-- The stream with the header of `samp` read, up to `io`. -/
def withHeader (fresh : ℕ → Bool) (samp : Sample) (io : IOStream) (block : BlockStats)
    (stream : SampleInputStream) : SampleInputStream :=
  { stream with
    io := io
    headerToRead := 0
    sheader := samp.header.toBytes
    samp := some (started samp)
    dptrNull := decide (samp.data.length = 0) && fresh stream.poolCalls
    dataToRead := samp.data.length
    poolCalls := stream.poolCalls + 1
    skipSample := false
    goodSamples := stream.goodSamples + 1
    block := block }

/-- With the filter off a header of an encodable sample is accepted. -/
theorem accept_header {bsf : BadSampleFilter} (hfilter : bsf.filterBadSamples = false)
    (hencodable : samp.Encodable) : bsf.accept samp.header = some samp.type := by
  rw [BadSampleFilter.accept, hfilter, Bool.false_and, if_neg Bool.false_ne_true,
    hencodable.getSample]

theorem sampleFromHeader_of_good (hfilter : stream.bsf.filterBadSamples = false)
    (hgood : stream.block.good = true) (hencodable : samp.Encodable)
    (hsheader : stream.sheader = samp.header.toBytes) :
    sampleFromHeader fresh stream =
      { stream with
        samp := some (started samp)
        dptrNull := decide (samp.data.length = 0) && fresh stream.poolCalls
        poolCalls := stream.poolCalls + 1
        skipSample := false
        goodSamples := stream.goodSamples + 1
        block := stream.block.addGoodSample samp.timeTag samp.data.length
          (stream.io.nbytesIn - sampleHeaderSize) } := by
  have haccept : stream.bsf.accept (SampleHeader.ofBytes stream.sheader) = some samp.type := by
    rw [hsheader, hencodable.ofBytes_header, accept_header hfilter hencodable]
  have hbad : stream.block.bad = false := by rw [BlockStats.bad, hgood, Bool.not_true, Bool.false_and]
  rw [sampleFromHeader_of_some haccept (by rw [hbad]; exact fun hfalse => by cases hfalse), hbad,
    hsheader, hencodable.ofBytes_header, InSample.ofHeader, hencodable.header_id]
  rfl

theorem readHeader_of_block {keepreading : Bool} {search : Option ℤ} {stored : List UInt8}
    {rr : ReadResult} {after : SampleInputStream} (hpos : 0 < stream.headerToRead)
    (hread : readBlock keepreading true stream.headerToRead stream = .block stored 0 rr after)
    (heof : rr.eof = false) (hnew : rr.newinput = false) :
    readHeader fresh keepreading search stream =
      headerComplete fresh keepreading search
        { after with headerToRead := 0, sheader := after.sheader ++ stored } := by
  rw [readHeader, if_pos hpos, hread, headerRead]
  dsimp only
  rw [heof, hnew, Bool.or_self, if_neg Bool.false_ne_true, if_neg (Nat.lt_irrefl 0)]

/-- A header that is there is read and accepted. -/
theorem readHeader_of_bytes {pre post : List ChannelRead} {more : List UInt8}
    (hat : AtHeader stream) (hencodable : samp.Encodable) (hreads : stream.io.reads = pre ++ post)
    (hcontinuing : Continuing pre)
    (hbytes : stream.io.bytes ++ bytesOf pre = samp.header.toBytes ++ more) :
    ∃ io block, readHeader fresh true none stream =
        readData true none (withHeader fresh samp io block stream) ∧
      block.good = true ∧ io.newInput = false ∧
      (io.bytes, io.reads) = advance ChannelRead.bytes sampleHeaderSize stream.io.bytes
        stream.io.reads := by
  have hlength := congrArg List.length hbytes
  rw [List.length_append, List.length_append, SampleHeader.length_toBytes] at hlength
  obtain ⟨io, hgather, hadvance, hnew, _⟩ := gatherFrom_full hreads hcontinuing
    (show sampleHeaderSize ≤ _ by omega)
  have hdata : stream.io.unread.take sampleHeaderSize = samp.header.toBytes := by
    rw [unread_eq, hreads, bytesOf_append, ← List.append_assoc, hbytes, List.append_assoc,
      List.take_left' (SampleHeader.length_toBytes _)]
  have hblock := @readBlock_gather stream sampleHeaderSize (by decide)
  rw [hgather, hdata] at hblock
  generalize hread : readBlock true true sampleHeaderSize stream = result at hblock
  cases hblock with
  | full heof hnewinput _ =>
      refine ⟨io, stream.block.addGoodSample samp.timeTag samp.data.length
        (io.nbytesIn - sampleHeaderSize), ?_, BlockStats.addGoodSample_good, hnew, hadvance⟩
      rw [← hat.headerToRead] at hread
      rw [readHeader_of_block (by rw [hat.headerToRead]; decide) hread heof hnewinput]
      dsimp only
      rw [hat.sheader, List.nil_append]
      rw [headerComplete, @sampleFromHeader_of_good fresh
        { stream with io := io, headerToRead := 0, sheader := samp.header.toBytes } samp
        hat.filter hat.good hencodable rfl]
      rfl

/-- Nothing is pending and no time is searched for: the data are read. -/
theorem readData_of_samp {keepreading : Bool} {insamp : InSample}
    (hpending : stream.sampPending = none) (hsamp : stream.samp = some insamp) :
    readData keepreading none stream =
      dataRead false stream
        (readBlock keepreading (!stream.dptrNull) stream.dataToRead stream) := by
  rw [readData, hpending, hsamp]
  simp only [Option.any_none, Bool.and_false, Bool.false_eq_true, if_false, Option.isSome_none]

theorem dataRead_of_block {searching : Bool} {stored : List UInt8} {rr : ReadResult}
    {after : SampleInputStream} (heof : rr.eof = false) (hnew : rr.newinput = false) :
    dataRead searching stream (.block stored 0 rr after) =
      sampleComplete searching
        { after with
          dataToRead := 0
          samp := after.samp.map fun samp => { samp with data := samp.data ++ stored } } := by
  rw [dataRead]
  dsimp only
  rw [heof, hnew, Bool.or_self, if_neg Bool.false_ne_true, if_neg (Nat.lt_irrefl 0)]

/-- A complete sample is returned when the filter is off. -/
theorem sampleComplete_of_samp {insamp : InSample} (hfilter : stream.bsf.filterBadSamples = false)
    (hskip : stream.skipSample = false) (hsamp : stream.samp = some insamp) :
    sampleComplete false stream =
      .ret (.sample insamp.toSample)
        { stream with samp := none, headerToRead := sampleHeaderSize, sheader := [] } := by
  rw [sampleComplete]
  dsimp only
  rw [hskip, Bool.or_self, if_neg Bool.false_ne_true, hfilter, if_neg Bool.false_ne_true, hsamp]

/-- The stream after a sample has been returned, up to `io`; `null` is what is left
of the data pointer. -/
def withSample (io : IOStream) (block : BlockStats) (null : Bool) (stream : SampleInputStream) :
    SampleInputStream :=
  { stream with
    io := io
    headerToRead := sampleHeaderSize
    sheader := []
    samp := none
    dptrNull := null
    dataToRead := 0
    poolCalls := stream.poolCalls + 1
    skipSample := false
    goodSamples := stream.goodSamples + 1
    block := block }

theorem AtHeader.withSample (hat : AtHeader stream) {io : IOStream} {block : BlockStats}
    {null : Bool} (hgood : block.good = true) : AtHeader (stream.withSample io block null) :=
  ⟨hat.parsed, rfl, rfl, rfl, hat.sampPending, hat.ateof, hat.filter, hgood⟩

/-- A turn from between two samples reads the next header. -/
theorem nextSampleTurn_atHeader {keepreading newinput : Bool} (hat : AtHeader stream) :
    nextSampleTurn fresh keepreading none newinput stream =
      readHeader fresh keepreading none stream := by
  unfold nextSampleTurn
  rw [hat.ateof, hat.sampPending, hat.parsed]
  cases newinput <;> rfl

theorem readSample_of_ret {outcome : Outcome} {after : SampleInputStream}
    (hturn : nextSampleTurn fresh true none false stream = .ret outcome after) :
    readSample fresh 1 stream = some (outcome, after) := by
  rw [readSample, nextSample, hturn]

/-- The end of the channel has been met, with nothing pending. -/
structure Ended (stream : SampleInputStream) : Prop where
  ateof : stream.ateof = true
  sampPending : stream.sampPending = none
  counted : Counted stream

theorem nextSampleTurn_ended {newinput : Bool} (hended : Ended stream) :
    nextSampleTurn fresh true none newinput stream = .ret .eof stream := by
  unfold nextSampleTurn
  rw [if_pos hended.ateof, handleEOF, hended.sampPending]
  rfl

theorem readSample_of_ended {newinput : Bool} {after : SampleInputStream}
    (hturn : nextSampleTurn fresh true none false stream = .again newinput after)
    (hended : Ended after) : readSample fresh 2 stream = some (.eof, after) := by
  rw [readSample, nextSample, hturn]
  dsimp only
  rw [nextSample, nextSampleTurn_ended hended]

/-- The bytes of a sample that is complete in this input, header and data. -/
structure SampleAhead (samp : Sample) (io : IOStream) (pre post : List ChannelRead)
    (more : List UInt8) : Prop where
  reads : io.reads = pre ++ post
  continuing : Continuing pre
  bytes : io.bytes ++ bytesOf pre = samp.encode ++ more

theorem SampleAhead.headerAhead {io : IOStream} {pre post : List ChannelRead} {more : List UInt8}
    (hahead : SampleAhead samp io pre post more) :
    io.bytes ++ bytesOf pre = samp.header.toBytes ++ (samp.data ++ more) := by
  rw [hahead.bytes, Sample.encode, List.append_assoc]

/-- After the header the data are ahead. -/
theorem SampleAhead.length_le {io : IOStream} {pre post : List ChannelRead} {more : List UInt8}
    (hahead : SampleAhead samp io pre post more) :
    sampleHeaderSize + samp.data.length ≤ io.bytes.length + (bytesOf pre).length := by
  have hlength := congrArg List.length hahead.bytes
  rw [List.length_append, List.length_append, Sample.length_encode] at hlength
  omega

theorem SampleAhead.header_le {io : IOStream} {pre post : List ChannelRead} {more : List UInt8}
    (hahead : SampleAhead samp io pre post more) : sampleHeaderSize ≤ io.unread.length := by
  have hle := hahead.length_le
  rw [unread_eq, hahead.reads, bytesOf_append, List.length_append, List.length_append]
  omega

/-- The data of a sample have been stored, or there are none. -/
theorem dataRead_of_stored {io after : IOStream} {block : BlockStats} {rr : ReadResult}
    (hat : AtHeader stream) (heof : rr.eof = false) (hnew : rr.newinput = false) :
    dataRead false (withHeader fresh samp io block stream)
        (.block samp.data 0 rr { withHeader fresh samp io block stream with io := after }) =
      .ret (.sample samp) (stream.withSample after block
        (decide (samp.data.length = 0) && fresh stream.poolCalls)) := by
  rw [dataRead_of_block heof hnew]
  exact @sampleComplete_of_samp
    { withHeader fresh samp io block stream with
      io := after
      dataToRead := 0
      samp := some { started samp with data := samp.data } }
    { started samp with data := samp.data } hat.filter rfl rfl

/-- A header that is there is read, and then its data; `left` are the reads that are
left in this input behind the header. -/
theorem nextSampleTurn_of_header {newinput : Bool} {pre post : List ChannelRead}
    {more : List UInt8} (hat : AtHeader stream) (hencodable : samp.Encodable)
    (hreads : stream.io.reads = pre ++ post) (hcontinuing : Continuing pre)
    (hbytes : stream.io.bytes ++ bytesOf pre = samp.header.toBytes ++ more) :
    ∃ io block left, block.good = true ∧
      (io.bytes, io.reads) = advance ChannelRead.bytes sampleHeaderSize stream.io.bytes
        stream.io.reads ∧
      io.reads = left ++ post ∧ Continuing left ∧ io.bytes ++ bytesOf left = more ∧
      nextSampleTurn fresh true none newinput stream =
        dataRead false (withHeader fresh samp io block stream)
          (readBlock true (!(decide (samp.data.length = 0) && fresh stream.poolCalls))
            samp.data.length (withHeader fresh samp io block stream)) := by
  obtain ⟨io, block, hheader, hgood, _, hadvance⟩ := @readHeader_of_bytes fresh _ _ _ _ _ hat
    hencodable hreads hcontinuing hbytes
  have hle : sampleHeaderSize ≤ (Lib.unread ChannelRead.bytes stream.io.bytes pre).length := by
    have hlength := congrArg List.length hbytes
    rw [List.length_append, List.length_append, SampleHeader.length_toBytes] at hlength
    rw [Lib.unread, List.length_append]
    exact Nat.le_of_add_right_le (Nat.le_of_eq hlength.symm)
  have hsplit := hadvance
  rw [hreads, advance_append pre post _ _ hle] at hsplit
  obtain ⟨hio, hleft⟩ := Prod.mk.inj hsplit
  have hsuffix := @advance_suffix _ _ ChannelRead.bytes pre sampleHeaderSize stream.io.bytes
  refine ⟨io, block, _, hgood, hadvance, hleft,
    fun read hmem => hcontinuing read (hsuffix.subset hmem), ?_, ?_⟩
  · calc io.bytes ++ bytesOf (advance ChannelRead.bytes sampleHeaderSize stream.io.bytes pre).2
        = (stream.io.bytes ++ bytesOf pre).drop sampleHeaderSize := by
          rw [hio]
          exact unread_advance pre sampleHeaderSize stream.io.bytes
      _ = more := by rw [hbytes, List.drop_left' (SampleHeader.length_toBytes _)]
  · rw [nextSampleTurn_atHeader hat, hheader, @readData_of_samp
      (withHeader fresh samp io block stream) true (started samp) hat.sampPending rfl]
    rfl

/-- A sample that is complete in this input is returned, if its data pointer is not
null. -/
theorem nextSampleTurn_of_ahead {newinput : Bool} {pre post : List ChannelRead} {more : List UInt8}
    (hat : AtHeader stream) (hencodable : samp.Encodable)
    (hahead : SampleAhead samp stream.io pre post more)
    (hptr : (decide (samp.data.length = 0) && fresh stream.poolCalls) = false) :
    ∃ io block, nextSampleTurn fresh true none newinput stream =
        .ret (.sample samp) (stream.withSample io block false) ∧
      block.good = true ∧ io.newInput = false ∧
      (io.bytes, io.reads) = advance ChannelRead.bytes (sampleHeaderSize + samp.data.length)
        stream.io.bytes stream.io.reads := by
  obtain ⟨io, block, left, hgood, hadvance, hleft, hcontinuing, hdata, hturn⟩ :=
    @nextSampleTurn_of_header fresh _ _ newinput _ _ _ hat hencodable hahead.reads
      hahead.continuing hahead.headerAhead
  have hlength := congrArg List.length hdata
  rw [List.length_append, List.length_append] at hlength
  obtain ⟨after, hgather, hafter, hnew, _⟩ := @gatherFrom_full samp.data.length io left post hleft
    hcontinuing (by omega)
  have htake : io.unread.take samp.data.length = samp.data := by
    have hall : io.unread = samp.data ++ (more ++ bytesOf post) := by
      rw [unread_eq, hleft, bytesOf_append, ← List.append_assoc, hdata, List.append_assoc]
    rw [hall, List.take_left' rfl]
  have hblock := @readBlock_gather (withHeader fresh samp io block stream) samp.data.length
    (hencodable.length_lt.trans (by decide))
  rw [show (withHeader fresh samp io block stream).io = io from rfl, hgather, htake] at hblock
  rw [hptr, Bool.not_false] at hturn
  generalize readBlock true true samp.data.length (withHeader fresh samp io block stream) =
    result at hblock hturn
  cases hblock with
  | full heof hnewinput _ =>
      refine ⟨after, block, ?_, hgood, hnew, ?_⟩
      · rw [hturn, dataRead_of_stored hat heof hnewinput, hptr]
      · rw [hafter, show io.bytes = (io.bytes, io.reads).1 from rfl,
          show io.reads = (io.bytes, io.reads).2 from rfl, hadvance, advance_advance]

/-! ## The end of the channel -/

/-- A block that is cut short by the end of the channel. -/
theorem readBlock_of_eof {len : ℕ} (hlen : len < 2 ^ 64) (hcontinuing : Continuing stream.io.reads)
    (hshort : stream.io.unread.length < len) :
    ∃ stored left rr io, rr.eof = true ∧ rr.newinput = false ∧ left + stored.length = len ∧
      readBlock true true len stream =
        .block stored left rr { stream with io := io, ateof := true } := by
  obtain ⟨data, io, hgather⟩ := gatherFrom_eof hcontinuing hshort
  have hblock := @readBlock_gather stream len hlen
  rw [hgather] at hblock
  generalize readBlock true true len stream = result at hblock ⊢
  cases hblock with
  | eof heof hnew hleft => exact ⟨_, _, _, _, heof, hnew, hleft, rfl⟩

/-- The channel ends before a header is complete. -/
theorem AtHeader.turn_eof {newinput : Bool} (hat : AtHeader stream)
    (hcontinuing : Continuing stream.io.reads) (hshort : stream.io.unread.length < sampleHeaderSize) :
    ∃ after, nextSampleTurn fresh true none newinput stream = .again false after ∧ Ended after ∧
      after.headersParsed = stream.headersParsed := by
  obtain ⟨stored, left, rr, io, heof, hnew, hleft, hread⟩ := readBlock_of_eof (by decide) hcontinuing
    hshort
  rw [nextSampleTurn_atHeader hat, readHeader, hat.headerToRead, if_pos (by decide), hread,
    headerRead]
  dsimp only
  rw [heof, hnew, Bool.or_false, if_pos rfl]
  refine ⟨_, rfl, ⟨rfl, hat.sampPending, ?_, hat.counted.2⟩, rfl⟩
  rw [hat.sheader, List.nil_append]
  exact hleft

/-- The channel ends before the data of a sample are complete. -/
theorem AtHeader.turn_eof_data {newinput : Bool} {more : List UInt8} (hat : AtHeader stream)
    (hencodable : samp.Encodable) (hcontinuing : Continuing stream.io.reads)
    (hbytes : stream.io.unread = samp.header.toBytes ++ more)
    (hlt : more.length < samp.data.length) :
    ∃ after, nextSampleTurn fresh true none newinput stream = .again false after ∧ Ended after ∧
      after.headersParsed = stream.headersParsed := by
  obtain ⟨io, block, left, hgood, _, hleft, hrest, hmore, hturn⟩ := @nextSampleTurn_of_header fresh _
    _ newinput _ [] _ hat hencodable (List.append_nil _).symm hcontinuing hbytes
  rw [List.append_nil] at hleft
  have hptr : (!(decide (samp.data.length = 0) && fresh stream.poolCalls)) = true := by
    have hpos : ¬ samp.data.length = 0 := by omega
    simp [hpos]
  obtain ⟨stored, count, rr, after, heof, hnew, hcount, hread⟩ := @readBlock_of_eof
    (withHeader fresh samp io block stream) samp.data.length
    (hencodable.length_lt.trans (by decide)) (by dsimp only [withHeader]; rw [hleft]; exact hrest)
    (by
      dsimp only [withHeader]
      rw [unread_eq, hleft, hmore]
      exact hlt)
  rw [hturn, hptr, hread, dataRead]
  dsimp only
  rw [heof, hnew, Bool.or_false, if_pos rfl]
  refine ⟨_, rfl, ⟨rfl, hat.sampPending, ?_, ?_⟩, rfl⟩
  · dsimp only [withHeader]
    rw [SampleHeader.length_toBytes, Nat.zero_add]
  · intro insamp hsamp
    cases hsamp
    exact hcount

/-! ## A sample without data -/

/-- Where the reads stand behind the header of a sample without data: whether the
buffer can be filled without harm. -/
def FillHarmless (position : List UInt8 × List ChannelRead) : Prop :=
  position.1 ≠ [] ∨ ∃ read more, position.2 = read :: more ∧ read.bytes = []

/-- A sample without data and with a null pointer: the buffer is filled behind its
header. -/
theorem nextSampleTurn_of_fill {newinput : Bool} {pre post : List ChannelRead} {more : List UInt8}
    (hat : AtHeader stream) (hencodable : samp.Encodable)
    (hahead : SampleAhead samp stream.io pre post more) (hempty : samp.data = [])
    (hfresh : fresh stream.poolCalls = true) :
    ∃ io block, block.good = true ∧
      (io.bytes, io.reads) = advance ChannelRead.bytes sampleHeaderSize stream.io.bytes
        stream.io.reads ∧
      nextSampleTurn fresh true none newinput stream =
        dataRead false (withHeader fresh samp io block stream)
          (readBlock true false 0 (withHeader fresh samp io block stream)) := by
  obtain ⟨io, block, _, hgood, hadvance, _, _, _, hturn⟩ := @nextSampleTurn_of_header fresh _ _
    newinput _ _ _ hat hencodable hahead.reads hahead.continuing hahead.headerAhead
  have hnull : (!(decide (samp.data.length = 0) && fresh stream.poolCalls)) = false := by
    simp [hempty, hfresh]
  rw [hnull, show samp.data.length = 0 by rw [hempty]; rfl] at hturn
  exact ⟨io, block, hgood, hadvance, hturn⟩

/-- Nothing has been read, so the sample is complete. -/
theorem dataRead_of_fill {io after : IOStream} {block : BlockStats} (hat : AtHeader stream)
    (hempty : samp.data = []) (hfresh : fresh stream.poolCalls = true) :
    dataRead false (withHeader fresh samp io block stream)
        (.block [] 0 {} { withHeader fresh samp io block stream with io := after }) =
      .ret (.sample samp) (stream.withSample after block true) := by
  have hnull : (decide (samp.data.length = 0) && fresh stream.poolCalls) = true := by
    simp [hempty, hfresh]
  have hstored := @dataRead_of_stored fresh stream samp io after block {} hat rfl rfl
  rw [hnull] at hstored
  rw [← hstored, hempty]

/-- A sample without data and with a null pointer is returned when filling the
buffer does no harm. -/
theorem nextSampleTurn_of_null {newinput : Bool} {pre post : List ChannelRead} {more : List UInt8}
    (hat : AtHeader stream) (hencodable : samp.Encodable)
    (hahead : SampleAhead samp stream.io pre post more) (hempty : samp.data = [])
    (hfresh : fresh stream.poolCalls = true) (hcontinuing : Continuing stream.io.reads)
    (hharmless : FillHarmless (advance ChannelRead.bytes sampleHeaderSize stream.io.bytes
      stream.io.reads)) :
    ∃ io block, nextSampleTurn fresh true none newinput stream =
        .ret (.sample samp) (stream.withSample io block true) ∧
      block.good = true ∧ Continuing io.reads ∧
      ((io.bytes, io.reads) = advance ChannelRead.bytes sampleHeaderSize stream.io.bytes
          stream.io.reads ∨
        ∃ read, read.bytes = [] ∧ io.bytes = [] ∧ ([], read :: io.reads) =
          advance ChannelRead.bytes sampleHeaderSize stream.io.bytes stream.io.reads) := by
  obtain ⟨io, block, hgood, hadvance, hturn⟩ := @nextSampleTurn_of_fill fresh _ _ newinput _ _ _ hat
    hencodable hahead hempty hfresh
  have hrest : Continuing io.reads := hcontinuing.advance hadvance
  rw [← hadvance] at hharmless ⊢
  by_cases hbytes : io.bytes = []
  · obtain ⟨first, rest, hreads, hfirst⟩ := hharmless.resolve_left (not_not.mpr hbytes)
    have hreads' : io.reads = first :: rest := hreads
    rw [hreads'] at hrest
    refine ⟨io.load first rest, block, ?_, hgood, hrest.of_cons.2, Or.inr ⟨first, hfirst, hfirst, ?_⟩⟩
    · rw [hturn, @readBlock_null_of_empty (withHeader fresh samp io block stream) first rest hbytes
        hreads' hfirst hrest.of_cons.1]
      exact dataRead_of_fill hat hempty hfresh
    · rw [hbytes, hreads']
      rfl
  · refine ⟨{ io with newInput := false }, block, ?_, hgood, hrest, Or.inl rfl⟩
    rw [hturn, @readBlock_null_of_bytes (withHeader fresh samp io block stream) hbytes]
    exact dataRead_of_fill hat hempty hfresh

/-- Otherwise the sample is not returned: at the end of the channel the call raises
EOF, and bytes that are read are stored through the null pointer. -/
theorem readSample_of_harm {pre post : List ChannelRead} {more : List UInt8}
    (hat : AtHeader stream) (hencodable : samp.Encodable)
    (hahead : SampleAhead samp stream.io pre post more) (hempty : samp.data = [])
    (hfresh : fresh stream.poolCalls = true) (hcontinuing : Continuing stream.io.reads)
    (hharm : ¬ FillHarmless (advance ChannelRead.bytes sampleHeaderSize stream.io.bytes
      stream.io.reads)) :
    ∃ turns outcome after, readSample fresh turns stream = some (outcome, after) ∧
      ∀ samp, outcome ≠ .sample samp := by
  obtain ⟨io, block, hgood, hadvance, hturn⟩ := @nextSampleTurn_of_fill fresh _ _ false _ _ _ hat
    hencodable hahead hempty hfresh
  have hrest : Continuing io.reads := hcontinuing.advance hadvance
  rw [← hadvance] at hharm
  have hbytes : io.bytes = [] := by
    by_contra hne
    exact hharm (Or.inl hne)
  cases hreads : io.reads with
  | nil =>
      have hblock := @readBlock_null_of_eof (withHeader fresh samp io block stream) hbytes hreads
      rw [hblock, dataRead] at hturn
      refine ⟨2, .eof, _, readSample_of_ended hturn ⟨rfl, hat.sampPending, rfl, ?_⟩,
        fun samp => by simp⟩
      intro insamp hsamp
      cases hsamp
      simp [started, hempty]
  | cons first rest =>
      have hne : first.bytes ≠ [] := fun hnil => hharm (Or.inr ⟨first, rest, hreads, hnil⟩)
      rw [hreads] at hrest
      rw [@readBlock_null_wild (withHeader fresh samp io block stream) first rest hbytes hreads hne
        hrest.of_cons.1] at hturn
      exact ⟨1, .wild, _, readSample_of_ret hturn, fun samp => by simp⟩

end SampleInputStream

end Nidas.Dynld
