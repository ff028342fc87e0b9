import Nidas.Core.HeaderGrammar
import Nidas.Dynld.ArchiveDecoding

/-!
# From one input to the next

Several inputs come through one channel, each a valid input header and then encoded
samples, cut short at any byte behind its header.  The channel flags the first read
of each input, and the decoder sees the flag only in the last physical read of a
block.  So at the end of an input the first read of the next one has to hold all the
bytes that the decoder still waits for: otherwise a further read clears the flag, and
bytes of the next input header are taken for those of a sample.
-/

namespace Nidas.Dynld

open Core Lib

namespace SampleInputStream

variable {fresh : ℕ → Bool} {stream : SampleInputStream} {samp : Sample}

/-! ## Inputs -/

/-- The samples that are complete in the first `cut` bytes. -/
def whole : ℕ → List Sample → List Sample
  | _, [] => []
  | cut, samp :: rest =>
      if samp.encode.length ≤ cut then samp :: whole (cut - samp.encode.length) rest else []

/-- How many bytes the decoder waits for behind the first `cut` bytes. -/
def needed : ℕ → List Sample → ℕ
  | _, [] => sampleHeaderSize
  | cut, samp :: rest =>
      if samp.encode.length ≤ cut then needed (cut - samp.encode.length) rest
      else if cut < sampleHeaderSize then sampleHeaderSize - cut
      else samp.encode.length - cut

/-- How many sample headers are complete in the first `cut` bytes. -/
def accepted : ℕ → List Sample → ℕ
  | _, [] => 0
  | cut, samp :: rest =>
      if samp.encode.length ≤ cut then accepted (cut - samp.encode.length) rest + 1
      else if cut < sampleHeaderSize then 0 else 1

/-- An input, and the reads that the channel does for it: not empty, and only the
first one flagged. -/
structure Input where
  header : List UInt8
  samples : List Sample
  cut : ℕ
  first : ChannelRead
  rest : List ChannelRead
  validHeader : ValidHeader header
  encodable : ∀ samp ∈ samples, samp.Encodable
  bytes : first.bytes ++ bytesOf rest = header ++ (encodeAll samples).take cut
  newInput : first.newInput = true
  continuing : Continuing rest
  nonempty : ∀ read ∈ first :: rest, read.bytes ≠ []

namespace Input

/-- The reads of an input. -/
def reads (input : Input) : List ChannelRead := input.first :: input.rest

/-- The samples that are complete in the input. -/
def complete (input : Input) : List Sample := whole input.cut input.samples

end Input

/-! ## The input header -/

/-- The parser is ready for a header. -/
def HeaderReady (header : SampleInputHeader) : Prop := header.stage = .start ∧ header.buf = []

/-- The stream when an input header has been parsed. -/
def withInputHeader (io : IOStream) (header : SampleInputHeader) (stream : SampleInputStream) :
    SampleInputStream :=
  { stream with
    io := io
    samp := none
    headerToRead := sampleHeaderSize
    sheader := []
    dataToRead := 0
    inputHeader := header
    inputHeaderParsed := true
    headersParsed := stream.headersParsed + 1 }

theorem validHeader_ne_nil {text : List UInt8} (hvalid : ValidHeader text) : text ≠ [] := by
  obtain ⟨magic, hmagic, body, _, rfl⟩ := hvalid
  intro hnil
  have hlength := length_magic_ge magic hmagic
  rw [(List.append_eq_nil_iff.mp hnil).1] at hlength
  exact absurd hlength (by decide)

/-- One call of `parseInputHeader`, with something in the buffer. -/
theorem parseInputHeader_of_awaits {text : List UInt8} (hexpect : stream.expectHeader = true)
    (hawaits : Awaits stream.inputHeader text) (hagrees : Agrees stream.io text) :
    (text.length ≤ stream.io.bytes.length ∧ ∃ header, HeaderReady header ∧
        parseInputHeader stream =
          (none, stream.withInputHeader (stream.io.readBuf text.length).2 header)) ∨
      stream.io.bytes.length < text.length ∧ ∃ header,
        Awaits header (text.drop stream.io.bytes.length) ∧
        parseInputHeader stream =
          (none, { stream with
            io := (stream.io.readBuf stream.io.bytes.length).2
            samp := none
            headerToRead := sampleHeaderSize
            sheader := []
            dataToRead := 0
            inputHeader := header
            inputHeaderParsed := false }) := by
  have hparse := parse_parsesTo hawaits hagrees
  unfold parseInputHeader
  dsimp only
  rw [if_neg (by rw [hexpect]; exact Bool.false_ne_true)]
  generalize stream.inputHeader.parse stream.io = state at hparse ⊢
  cases hparse with
  | more hlt hafter => exact Or.inr ⟨hlt, _, hafter, rfl⟩
  | complete hle hstage hbuf => exact Or.inl ⟨hle, _, ⟨hstage, hbuf⟩, rfl⟩

/-- What reading an input header comes to. -/
def HeaderTaken (text : List UInt8) (fuel : ℕ) (stream : SampleInputStream) : Prop :=
  ∃ io header after, HeaderReady header ∧
    (io.bytes, io.reads) = advance ChannelRead.bytes text.length stream.io.bytes stream.io.reads ∧
    parseInputHeader stream = (none, after) ∧
    readInputHeaderLoop fuel after = .parsed (stream.withInputHeader io header)

theorem headerTaken_of_le {text : List UInt8} {fuel : ℕ} {header : SampleInputHeader}
    (hready : HeaderReady header) (hle : text.length ≤ stream.io.bytes.length)
    (hparse : parseInputHeader stream =
      (none, stream.withInputHeader (stream.io.readBuf text.length).2 header)) :
    HeaderTaken text fuel stream := by
  refine ⟨(stream.io.readBuf text.length).2, header, _, hready, ?_, hparse, ?_⟩
  · rw [advance_of_le hle]
    rfl
  · cases fuel <;> rfl

/-- The loop goes on from the read in the buffer to the end of the header. -/
theorem headerTaken_of_awaits {later : List ChannelRead} :
    ∀ (pre : List ChannelRead) (fuel : ℕ) (stream : SampleInputStream) (text body : List UInt8),
      stream.expectHeader = true → Awaits stream.inputHeader text →
      stream.io.reads = pre ++ later → stream.io.bytes ++ bytesOf pre = text ++ body →
      pre.length ≤ fuel → HeaderTaken text fuel stream := by
  intro pre
  induction pre with
  | nil =>
      intro fuel stream text body hexpect hawaits hreads hbytes hfuel
      rw [bytesOf_nil, List.append_nil] at hbytes
      rcases parseInputHeader_of_awaits hexpect hawaits ⟨[], body, by rw [List.append_nil, hbytes]⟩
        with ⟨hle, header, hready, hparse⟩ | ⟨hlt, _⟩
      · exact headerTaken_of_le hready hle hparse
      · rw [hbytes, List.length_append] at hlt
        omega
  | cons read pre ih =>
      intro fuel stream text body hexpect hawaits hreads hbytes hfuel
      rcases parseInputHeader_of_awaits hexpect hawaits ⟨_, body, hbytes⟩
        with ⟨hle, header, hready, hparse⟩ | ⟨hlt, header, hafter, hparse⟩
      · exact headerTaken_of_le hready hle hparse
      · -- the buffer is used up, and the next read is loaded
        obtain ⟨fuel, rfl⟩ := Nat.exists_eq_succ_of_ne_zero
          (Nat.ne_of_gt (Nat.lt_of_lt_of_le (Nat.succ_pos pre.length) hfuel))
        have hempty : (stream.io.readBuf stream.io.bytes.length).2.bytes = [] := List.drop_length
        have hrest : read.bytes ++ bytesOf pre = text.drop stream.io.bytes.length ++ body := by
          have hdrop := congrArg (List.drop stream.io.bytes.length) hbytes
          rwa [List.drop_left' rfl, List.drop_append_of_le_length (Nat.le_of_lt hlt), bytesOf_cons]
            at hdrop
        obtain ⟨io, header', after, hready, hadvance, hparse', hloop⟩ := ih fuel
          { stream with
            io := (stream.io.readBuf stream.io.bytes.length).2.load read (pre ++ later)
            samp := none
            headerToRead := sampleHeaderSize
            sheader := []
            dataToRead := 0
            inputHeader := header
            inputHeaderParsed := false }
          (text.drop stream.io.bytes.length) body hexpect hafter rfl hrest
          (Nat.le_of_succ_le_succ hfuel)
        refine ⟨io, header', _, hready, ?_, hparse, ?_⟩
        · rw [hadvance, hreads, List.cons_append, advance_of_lt hlt, List.length_drop]
          rfl
        · have hread := @read_of_nil (stream.io.readBuf stream.io.bytes.length).2 read (pre ++ later)
            hempty hreads
          rw [readInputHeaderLoop]
          dsimp only
          rw [if_neg Bool.false_ne_true, hread]
          dsimp only
          rw [hparse']
          exact hloop

/-- The stream stands at the start of an input, whose first read is in the buffer or
is done next. -/
structure AtInput (input : Input) (later : List ChannelRead) (stream : SampleInputStream) : Prop where
  expect : stream.expectHeader = true
  parsed : stream.inputHeaderParsed = false
  ready : HeaderReady stream.inputHeader
  sampPending : stream.sampPending = none
  ateof : stream.ateof = false
  filter : stream.bsf.filterBadSamples = false
  good : stream.block.good = true
  read : ∃ len io, stream.io.read = (some len, io) ∧ io.bytes = input.first.bytes ∧
    io.reads = input.rest ++ later

/-- A call of `IOStream::read` does at most one read. -/
theorem length_reads_of_read {io after : IOStream} {len : ℕ} (hread : io.read = (some len, after)) :
    after.reads.length ≤ io.reads.length := by
  unfold IOStream.read at hread
  split_ifs at hread
  · cases hread
    exact Nat.le_refl _
  · cases hreads : io.reads with
    | nil =>
        rw [hreads] at hread
        cases hread
    | cons first rest =>
        rw [hreads] at hread
        cases hread
        exact Nat.le_succ _

/-- The first turn in an input reads its header. -/
theorem AtInput.turn {input : Input} {later : List ChannelRead} {newinput : Bool}
    (hat : AtInput input later stream) :
    ∃ io header, HeaderReady header ∧
      (io.bytes, io.reads) = advance ChannelRead.bytes input.header.length input.first.bytes
        (input.rest ++ later) ∧
      AtHeader (stream.withInputHeader io header) ∧
      nextSampleTurn fresh true none newinput stream =
        nextSampleTurn fresh true none newinput (stream.withInputHeader io header) := by
  obtain ⟨len, loaded, hread, hbytes, hreads⟩ := hat.read
  have hfuel := length_reads_of_read hread
  rw [hreads, List.length_append] at hfuel
  obtain ⟨io, header, after, hready, hadvance, hparse, hloop⟩ := @headerTaken_of_awaits later
    input.rest (stream.io.reads.length + 2) { stream with io := loaded } input.header
    ((encodeAll input.samples).take input.cut) hat.expect
    (.start hat.ready.1 hat.ready.2 input.validHeader) hreads
    (by rw [hbytes]; exact input.bytes) (by omega)
  have hheader : readInputHeader stream = .parsed (stream.withInputHeader io header) := by
    rw [readInputHeader, readInputHeaderLoop, if_neg (by rw [hat.parsed]; exact Bool.false_ne_true),
      hread]
    dsimp only
    rw [hparse]
    exact hloop
  have hatHeader : AtHeader (stream.withInputHeader io header) :=
    ⟨rfl, rfl, rfl, rfl, hat.sampPending, hat.ateof, hat.filter, hat.good⟩
  refine ⟨io, header, hready, ?_, hatHeader, ?_⟩
  · rw [hadvance, hbytes, hreads]
  · rw [nextSampleTurn_atHeader hatHeader]
    unfold nextSampleTurn
    rw [hat.ateof, hat.sampPending, hat.parsed, hheader]
    cases newinput <;> rfl

/-! ## Within an input -/

/-- The stream stands before a header of an input; `samples` are still to come, up to
byte `cut`, and `pre` are the reads that are left of the input. -/
structure InInput (later : List ChannelRead) (cut : ℕ) (samples : List Sample)
    (pre : List ChannelRead) (stream : SampleInputStream) : Prop where
  atHeader : AtHeader stream
  expect : stream.expectHeader = true
  ready : HeaderReady stream.inputHeader
  reads : stream.io.reads = pre ++ later
  continuing : Continuing pre
  nonempty : ∀ read ∈ pre, read.bytes ≠ []
  bytes : stream.io.bytes ++ bytesOf pre = (encodeAll samples).take cut
  encodable : ∀ samp ∈ samples, samp.Encodable

variable {later pre : List ChannelRead} {cut : ℕ} {samples rest : List Sample}

theorem InInput.ahead (hin : InInput later cut (samp :: rest) pre stream)
    (hcut : samp.encode.length ≤ cut) :
    SampleAhead samp stream.io pre later ((encodeAll rest).take (cut - samp.encode.length)) := by
  refine ⟨hin.reads, hin.continuing, ?_⟩
  rw [hin.bytes, encodeAll_cons, List.take_append, List.take_of_length_le hcut]

/-- Going on within the input. -/
theorem InInput.advance (hin : InInput later cut (samp :: rest) pre stream)
    (hcut : samp.encode.length ≤ cut) {io : IOStream} {block : BlockStats} {null : Bool}
    (hgood : block.good = true)
    (hadvance : (io.bytes, io.reads) = Lib.advance ChannelRead.bytes
      (sampleHeaderSize + samp.data.length) stream.io.bytes stream.io.reads) :
    InInput later (cut - samp.encode.length) rest
        (Lib.advance ChannelRead.bytes (sampleHeaderSize + samp.data.length) stream.io.bytes pre).2
        (stream.withSample io block null) ∧
      io.bytes = (Lib.advance ChannelRead.bytes (sampleHeaderSize + samp.data.length)
        stream.io.bytes pre).1 := by
  have hahead := hin.ahead hcut
  have hle : sampleHeaderSize + samp.data.length ≤
      (Lib.unread ChannelRead.bytes stream.io.bytes pre).length := by
    rw [Lib.unread, List.length_append]
    exact hahead.length_le
  rw [hin.reads, advance_append pre later _ _ hle] at hadvance
  obtain ⟨hbytes, hreads⟩ := Prod.mk.inj hadvance
  have hsuffix := @advance_suffix _ _ ChannelRead.bytes pre (sampleHeaderSize + samp.data.length)
    stream.io.bytes
  have hunread := @unread_advance _ _ ChannelRead.bytes pre (sampleHeaderSize + samp.data.length)
    stream.io.bytes
  refine ⟨⟨hin.atHeader.withSample hgood, hin.expect, hin.ready, hreads,
    fun read hmem => hin.continuing read (hsuffix.subset hmem),
    fun read hmem => hin.nonempty read (hsuffix.subset hmem), ?_,
    fun other hmem => hin.encodable other (List.mem_cons_of_mem _ hmem)⟩, hbytes⟩
  calc io.bytes ++ bytesOf (Lib.advance ChannelRead.bytes (sampleHeaderSize + samp.data.length)
        stream.io.bytes pre).2
      = (Lib.unread ChannelRead.bytes stream.io.bytes pre).drop
          (sampleHeaderSize + samp.data.length) := by rw [hbytes]; exact hunread
    _ = (samp.encode ++ (encodeAll rest).take (cut - samp.encode.length)).drop
          (sampleHeaderSize + samp.data.length) := by rw [← hahead.bytes]; rfl
    _ = (encodeAll rest).take (cut - samp.encode.length) :=
        List.drop_left' (Sample.length_encode samp)

/-- With reads that are not empty, filling is harmless only if the buffer holds
something. -/
theorem bytes_ne_nil_of_harmless {need : ℕ} {front : List UInt8}
    (hnonempty : ∀ read ∈ pre, read.bytes ≠ [])
    (hharmless : FillHarmless (Lib.advance ChannelRead.bytes need front pre)) :
    (Lib.advance ChannelRead.bytes need front pre).1 ≠ [] := by
  rcases hharmless with hbytes | ⟨read, more, hreads, hempty⟩
  · exact hbytes
  · have hsuffix := @advance_suffix _ _ ChannelRead.bytes pre need front
    rw [hreads] at hsuffix
    exact absurd hempty (hnonempty read (hsuffix.subset (List.mem_cons_self ..)))

/-- The next sample is returned. -/
theorem InInput.turn {newinput : Bool} (hin : InInput later cut (samp :: rest) pre stream)
    (hcut : samp.encode.length ≤ cut)
    (hharmless : samp.data = [] → fresh stream.poolCalls = true →
      FillHarmless (Lib.advance ChannelRead.bytes sampleHeaderSize stream.io.bytes pre)) :
    ∃ after, nextSampleTurn fresh true none newinput stream = .ret (.sample samp) after ∧
      InInput later (cut - samp.encode.length) rest
        (Lib.advance ChannelRead.bytes (sampleHeaderSize + samp.data.length) stream.io.bytes pre).2
        after ∧
      after.io.bytes = (Lib.advance ChannelRead.bytes (sampleHeaderSize + samp.data.length)
        stream.io.bytes pre).1 ∧
      after.poolCalls = stream.poolCalls + 1 ∧ after.headersParsed = stream.headersParsed := by
  have hahead := hin.ahead hcut
  have hencodable := hin.encodable samp (List.mem_cons_self ..)
  by_cases hnull : samp.data = [] ∧ fresh stream.poolCalls = true
  · obtain ⟨hempty, hfresh⟩ := hnull
    obtain ⟨io, block, hgood, hadvance, hturn⟩ := @nextSampleTurn_of_fill fresh _ _ newinput _ _ _
      hin.atHeader hencodable hahead hempty hfresh
    have hadvance' : (io.bytes, io.reads) = Lib.advance ChannelRead.bytes
        (sampleHeaderSize + samp.data.length) stream.io.bytes stream.io.reads := by
      rw [hadvance, hempty, List.length_nil, Nat.add_zero]
    have hsame := @InInput.advance _ _ later pre cut rest hin hcut { io with newInput := false } block
      true hgood hadvance'
    have hbytes : io.bytes ≠ [] := by
      have hfill := bytes_ne_nil_of_harmless hin.nonempty (hharmless hempty hfresh)
      have hio : io.bytes = _ := hsame.2
      rwa [hio, hempty, List.length_nil, Nat.add_zero]
    refine ⟨_, ?_, hsame.1, hsame.2, rfl, rfl⟩
    rw [hturn, @readBlock_null_of_bytes (withHeader fresh samp io block stream) hbytes]
    exact dataRead_of_fill hin.atHeader hempty hfresh
  · have hptr : (decide (samp.data.length = 0) && fresh stream.poolCalls) = false := by
      rw [Bool.and_eq_false_iff, decide_eq_false_iff_not, List.length_eq_zero_iff]
      rw [not_and_or, Bool.not_eq_true] at hnull
      exact hnull
    obtain ⟨io, block, hturn, hgood, _, hadvance⟩ := @nextSampleTurn_of_ahead fresh _ _ newinput _ _
      _ hin.atHeader hencodable hahead hptr
    have hsame := @InInput.advance _ _ later pre cut rest hin hcut io block false hgood hadvance
    exact ⟨_, hturn, hsame.1, hsame.2, rfl, rfl⟩

/-! ## The end of an input -/

/-- The stream goes back to the start of a new input; what it was reading is left
where it is. -/
def Switched (first : ChannelRead) (post : List ChannelRead) (stream after : SampleInputStream) :
    Prop :=
  ∃ block bad good, block.good = true ∧
    after = { stream with
      io := ⟨post, [], first.bytes, true, 0⟩
      inputHeaderParsed := false
      block := block
      badSamples := bad
      goodSamples := good }

/-- A block that ends in the first read of a new input. -/
theorem readBlock_of_newinput {len : ℕ} {first : ChannelRead} {post : List ChannelRead}
    (hlen : len < 2 ^ 64) (hgood : stream.block.good = true)
    (hreads : stream.io.reads = pre ++ first :: post) (hcontinuing : Continuing pre)
    (hnew : first.newInput = true)
    (hlt : stream.io.bytes.length + (bytesOf pre).length < len)
    (hle : len ≤ stream.io.bytes.length + (bytesOf pre).length + first.bytes.length) :
    ∃ stored left rr after, readBlock true true len stream = .block stored left rr after ∧
      rr.eof = false ∧ rr.newinput = true ∧ Switched first post stream after := by
  obtain ⟨data, io, hgather, hback⟩ := gatherFrom_newinput hreads hcontinuing hnew hlt hle
  have hblock := @readBlock_gather stream len hlen
  rw [hgather] at hblock
  generalize readBlock true true len stream = result at hblock ⊢
  cases hblock with
  | newinput heof hnewinput _ =>
      refine ⟨_, _, _, _, rfl, heof, hnewinput, ?_⟩
      unfold handleNewInput closeBlocks
      dsimp only
      split_ifs
      · exact ⟨{}, 0, 0, rfl, by rw [← hback]⟩
      · exact ⟨stream.block, stream.badSamples, stream.goodSamples, hgood, by rw [← hback]⟩

/-- A new input comes while a header is read. -/
theorem AtHeader.turn_newinput {newinput : Bool} {first : ChannelRead} {post : List ChannelRead}
    (hat : AtHeader stream) (hreads : stream.io.reads = pre ++ first :: post)
    (hcontinuing : Continuing pre) (hnew : first.newInput = true)
    (hlt : stream.io.bytes.length + (bytesOf pre).length < sampleHeaderSize)
    (hle : sampleHeaderSize ≤
      stream.io.bytes.length + (bytesOf pre).length + first.bytes.length) :
    ∃ after left sheader, Switched first post stream after ∧
      nextSampleTurn fresh true none newinput stream =
        .again true { after with headerToRead := left, sheader := sheader } := by
  obtain ⟨stored, left, rr, after, hread, heof, hnewinput, hswitched⟩ := readBlock_of_newinput
    (by decide) hat.good hreads hcontinuing hnew hlt hle
  refine ⟨after, left, after.sheader ++ stored, hswitched, ?_⟩
  rw [nextSampleTurn_atHeader hat, readHeader, hat.headerToRead, if_pos (by decide), hread,
    headerRead]
  dsimp only
  rw [heof, hnewinput, Bool.false_or, if_pos rfl]

/-- A new input comes while the data of a sample are read. -/
theorem AtHeader.turn_newinput_data {newinput : Bool} {first : ChannelRead}
    {post : List ChannelRead} {more : List UInt8} (hat : AtHeader stream)
    (hencodable : samp.Encodable) (hreads : stream.io.reads = pre ++ first :: post)
    (hcontinuing : Continuing pre) (hnew : first.newInput = true)
    (hbytes : stream.io.bytes ++ bytesOf pre = samp.header.toBytes ++ more)
    (hlt : more.length < samp.data.length)
    (hle : samp.data.length ≤ more.length + first.bytes.length) :
    ∃ io block after left insamp, block.good = true ∧
      Switched first post (withHeader fresh samp io block stream) after ∧
      nextSampleTurn fresh true none newinput stream =
        .again true { after with dataToRead := left, samp := insamp } := by
  obtain ⟨io, block, left, hgood, _, hleft, hrest, hmore, hturn⟩ := @nextSampleTurn_of_header fresh _
    _ newinput _ _ _ hat hencodable hreads hcontinuing hbytes
  have hlength := congrArg List.length hmore
  rw [List.length_append] at hlength
  have hptr : (!(decide (samp.data.length = 0) && fresh stream.poolCalls)) = true := by
    have hpos : ¬ samp.data.length = 0 := by omega
    simp [hpos]
  obtain ⟨stored, count, rr, after, hread, heof, hnewinput, hswitched⟩ := @readBlock_of_newinput
    (withHeader fresh samp io block stream) left samp.data.length first post
    (hencodable.length_lt.trans (by decide)) hgood hleft hrest hnew
    (by dsimp only [withHeader]; omega) (by dsimp only [withHeader]; omega)
  refine ⟨io, block, after, count,
    after.samp.map fun samp => { samp with data := samp.data ++ stored }, hgood, hswitched, ?_⟩
  rw [hturn, hptr, hread, dataRead]
  dsimp only
  rw [heof, hnewinput, Bool.false_or, if_pos rfl]

/-- What is left at the end of an input: a part of a header, or a header and a part of
its data. -/
theorem leftover (hwhole : whole cut samples = []) :
    (((encodeAll samples).take cut).length < sampleHeaderSize ∧
        needed cut samples = sampleHeaderSize - ((encodeAll samples).take cut).length ∧
        accepted cut samples = 0) ∨
      ∃ samp rest more, samples = samp :: rest ∧
        (encodeAll samples).take cut = samp.header.toBytes ++ more ∧
        more.length < samp.data.length ∧ needed cut samples = samp.data.length - more.length ∧
        accepted cut samples = 1 := by
  cases samples with
  | nil => exact Or.inl ⟨by simp [encodeAll, sampleHeaderSize], by simp [encodeAll, needed], rfl⟩
  | cons samp rest =>
      have hlt : ¬ samp.encode.length ≤ cut := by
        intro hle
        rw [whole, if_pos hle] at hwhole
        cases hwhole
      have htake : (encodeAll (samp :: rest)).take cut = samp.encode.take cut := by
        rw [encodeAll_cons, List.take_append_of_le_length (by omega)]
      have hlength := samp.length_encode
      rw [htake, needed, if_neg hlt, accepted, if_neg hlt]
      by_cases hheader : cut < sampleHeaderSize
      · have hcut : (samp.encode.take cut).length = cut := by
          rw [List.length_take]
          omega
        rw [if_pos hheader, if_pos hheader, hcut]
        exact Or.inl ⟨hheader, rfl, rfl⟩
      · rw [if_neg hheader, if_neg hheader]
        have hmore : (samp.data.take (cut - sampleHeaderSize)).length = cut - sampleHeaderSize := by
          rw [List.length_take]
          omega
        refine Or.inr ⟨samp, rest, samp.data.take (cut - sampleHeaderSize), rfl, ?_, ?_, ?_, rfl⟩
        · rw [Sample.encode, List.take_append, SampleHeader.length_toBytes,
            List.take_of_length_le (by rw [SampleHeader.length_toBytes]; omega)]
        · rw [hmore]
          omega
        · rw [hmore]
          omega

/-- At the end of the last input the end of the channel is met. -/
theorem InInput.turn_eof {newinput : Bool} (hin : InInput [] cut samples pre stream)
    (hwhole : whole cut samples = []) :
    ∃ after, nextSampleTurn fresh true none newinput stream = .again false after ∧ Ended after ∧
      after.headersParsed = stream.headersParsed := by
  have hreads : stream.io.reads = pre := by rw [hin.reads, List.append_nil]
  have hcontinuing : Continuing stream.io.reads := by
    rw [hreads]
    exact hin.continuing
  have hunread : stream.io.unread = (encodeAll samples).take cut := by
    rw [unread_eq, hreads, hin.bytes]
  rcases leftover hwhole with ⟨hlt, _, _⟩ | ⟨samp, rest, more, rfl, hbytes, hlt, _, _⟩
  · exact hin.atHeader.turn_eof hcontinuing (by rw [hunread]; exact hlt)
  · exact hin.atHeader.turn_eof_data (hin.encodable samp (List.mem_cons_self ..)) hcontinuing
      (hunread.trans hbytes) hlt

/-- The buffer holds the first read of the input. -/
theorem Input.read_first (input : Input) (later : List ChannelRead) :
    ∃ len io, IOStream.read ⟨input.rest ++ later, [], input.first.bytes, true, 0⟩ = (some len, io) ∧
      io.bytes = input.first.bytes ∧ io.reads = input.rest ++ later :=
  ⟨0, _, if_pos (List.length_pos_iff.mpr (input.nonempty _ (List.mem_cons_self ..))), rfl, rfl⟩

/-- At the end of an input the next one is seen, if its first read holds what the
decoder waits for. -/
theorem InInput.turn_switch {newinput : Bool} {next : Input}
    (hin : InInput (next.reads ++ later) cut samples pre stream) (hwhole : whole cut samples = [])
    (hneeded : needed cut samples ≤ next.first.bytes.length) :
    ∃ after, nextSampleTurn fresh true none newinput stream = .again true after ∧
      AtInput next later after ∧ after.poolCalls = stream.poolCalls + accepted cut samples ∧
      after.headersParsed = stream.headersParsed := by
  have hat := hin.atHeader
  have hlength := congrArg List.length hin.bytes
  rw [List.length_append] at hlength
  rcases leftover hwhole with ⟨hlt, hcount, haccepted⟩ |
      ⟨samp, rest, more, rfl, hbytes, hlt, hcount, haccepted⟩
  · obtain ⟨after, left, sheader, ⟨block, bad, good, hgood, hafter⟩, hturn⟩ :=
      @AtHeader.turn_newinput fresh _ pre newinput next.first (next.rest ++ later) hat hin.reads
        hin.continuing next.newInput (by omega) (by omega)
    refine ⟨_, hturn, ?_, ?_, ?_⟩
    · rw [hafter]
      exact ⟨hin.expect, rfl, hin.ready, hat.sampPending, hat.ateof, hat.filter, hgood,
        next.read_first later⟩
    · rw [hafter, haccepted]
      rfl
    · rw [hafter]
  · obtain ⟨io, block, after, left, insamp, _, ⟨block', bad, good, hgood, hafter⟩, hturn⟩ :=
      @AtHeader.turn_newinput_data fresh _ samp pre newinput next.first (next.rest ++ later) more hat
        (hin.encodable samp (List.mem_cons_self ..)) hin.reads hin.continuing next.newInput
        (hin.bytes.trans hbytes) hlt (by omega)
    refine ⟨_, hturn, ?_, ?_, ?_⟩
    · rw [hafter]
      exact ⟨hin.expect, rfl, hin.ready, hat.sampPending, hat.ateof, hat.filter, hgood,
        next.read_first later⟩
    · rw [hafter, haccepted]
      rfl
    · rw [hafter]
      rfl

/-! ## All inputs -/

/-- The reads of the channel for a list of inputs. -/
def readsOf (inputs : List Input) : List ChannelRead := inputs.flatMap Input.reads

/-- The samples that are complete, input after input. -/
def samplesOf (inputs : List Input) : List Sample := inputs.flatMap Input.complete

/-- Where the reads stand behind the header of an input. -/
def Input.behindHeader (input : Input) : List UInt8 × List ChannelRead :=
  Lib.advance ChannelRead.bytes input.header.length [] input.reads

/-- The first read of each input holds what the decoder still waits for at the end of
the input before it, and no sample without data meets an empty buffer with a null
pointer.  `calls` are the sample objects that have been asked for before. -/
def Switchable (fresh : ℕ → Bool) : ℕ → List Input → Prop
  | _, [] => True
  | calls, input :: rest =>
      ZeroLengthSafe fresh calls input.behindHeader.1 input.behindHeader.2 input.complete ∧
        (∀ next ∈ rest.head?, needed input.cut input.samples ≤ next.first.bytes.length) ∧
        Switchable fresh (calls + accepted input.cut input.samples) rest

theorem Input.behindHeader_eq (input : Input) :
    input.behindHeader =
      Lib.advance ChannelRead.bytes input.header.length input.first.bytes input.rest := by
  have hpos := List.length_pos_iff.mpr (validHeader_ne_nil input.validHeader)
  rw [behindHeader, reads, advance_of_lt (by simpa using hpos), List.length_nil, Nat.sub_zero]

/-- Behind the header the stream is in the input. -/
theorem AtInput.inInput {input : Input} {newinput : Bool} (hat : AtInput input later stream) :
    ∃ after, InInput later input.cut input.samples input.behindHeader.2 after ∧
      after.io.bytes = input.behindHeader.1 ∧ after.poolCalls = stream.poolCalls ∧
      after.headersParsed = stream.headersParsed + 1 ∧
      nextSampleTurn fresh true none newinput stream =
        nextSampleTurn fresh true none newinput after := by
  obtain ⟨io, header, hready, hadvance, hatHeader, hturn⟩ := @AtInput.turn fresh _ _ _ newinput hat
  have hle : input.header.length ≤
      (Lib.unread ChannelRead.bytes input.first.bytes input.rest).length := by
    have hlength := congrArg List.length input.bytes
    rw [List.length_append, List.length_append] at hlength
    rw [Lib.unread, List.length_append]
    exact Nat.le_of_add_right_le (Nat.le_of_eq hlength.symm)
  rw [advance_append _ _ _ _ hle, ← input.behindHeader_eq] at hadvance
  obtain ⟨hbytes, hreads⟩ := Prod.mk.inj hadvance
  have hsuffix : input.behindHeader.2 <:+ input.rest := by
    rw [input.behindHeader_eq]
    exact advance_suffix _ _ _
  refine ⟨_, ⟨hatHeader, hat.expect, hready, hreads,
    fun read hmem => input.continuing read (hsuffix.subset hmem),
    fun read hmem => input.nonempty read (List.mem_cons_of_mem _ (hsuffix.subset hmem)), ?_,
    input.encodable⟩, hbytes, rfl, rfl, hturn⟩
  have hunread := @unread_advance _ _ ChannelRead.bytes input.rest input.header.length
    input.first.bytes
  rw [← input.behindHeader_eq] at hunread
  calc io.bytes ++ bytesOf input.behindHeader.2
      = (input.first.bytes ++ bytesOf input.rest).drop input.header.length := by
        rw [hbytes]
        exact hunread
    _ = (encodeAll input.samples).take input.cut := by rw [input.bytes, List.drop_left' rfl]

/-- The samples of an input are returned one after the other; `rest` is what is
returned behind its end. -/
theorem InInput.run {other : List Sample} {outcome : Outcome} {Good : SampleInputStream → Prop} :
    ∀ {samples : List Sample} {cut : ℕ} {pre : List ChannelRead} {stream : SampleInputStream},
      InInput later cut samples pre stream →
      ZeroLengthSafe fresh stream.poolCalls stream.io.bytes pre (whole cut samples) →
      (∀ cut' samples' pre' after, InInput later cut' samples' pre' after →
        whole cut' samples' = [] → needed cut' samples' = needed cut samples →
        after.poolCalls + accepted cut' samples' = stream.poolCalls + accepted cut samples →
        after.headersParsed = stream.headersParsed →
        ∃ last, Reads fresh after other outcome last ∧ Good last) →
      ∃ last, Reads fresh stream (whole cut samples ++ other) outcome last ∧ Good last := by
  intro samples
  induction samples with
  | nil =>
      intro cut pre stream hin _ hend
      exact hend cut [] pre stream hin rfl rfl rfl rfl
  | cons samp rest ih =>
      intro cut pre stream hin hsafe hend
      by_cases hcut : samp.encode.length ≤ cut
      · have hwhole : whole cut (samp :: rest) = samp :: whole (cut - samp.encode.length) rest :=
          if_pos hcut
        have hneeded : needed cut (samp :: rest) = needed (cut - samp.encode.length) rest :=
          if_pos hcut
        have haccepted : accepted cut (samp :: rest) =
            accepted (cut - samp.encode.length) rest + 1 := if_pos hcut
        rw [hwhole] at hsafe ⊢
        obtain ⟨hfirst, hrest⟩ := zeroLengthSafe_cons.mp hsafe
        obtain ⟨after, hturn, hafter, hbytes, hcalls, hparsed⟩ := hin.turn hcut hfirst
        rw [← hcalls, ← hbytes] at hrest
        obtain ⟨last, hreads, hgood⟩ := ih hafter hrest (by
          intro cut' samples' pre' after' hin' hnil hsame hcount hheaders
          exact hend cut' samples' pre' after' hin' hnil (hsame.trans hneeded.symm)
            (by omega) (hheaders.trans hparsed))
        exact ⟨last, .sample 1 (readSample_of_ret hturn) hreads, hgood⟩
      · have hwhole : whole cut (samp :: rest) = [] := if_neg hcut
        rw [hwhole]
        exact hend cut (samp :: rest) pre stream hin hwhole rfl rfl rfl

/-- **Inputs that can be told apart are read one after the other.** -/
theorem AtInput.run :
    ∀ {inputs : List Input} {input : Input} {stream : SampleInputStream},
      AtInput input (readsOf inputs) stream →
      Switchable fresh stream.poolCalls (input :: inputs) →
      ∃ last, Reads fresh stream (samplesOf (input :: inputs)) .eof last ∧
        last.headersParsed = stream.headersParsed + (input :: inputs).length := by
  intro inputs
  induction inputs with
  | nil =>
      intro input stream hat hswitchable
      obtain ⟨after, hin, hbytes, hcalls, hparsed, hturn⟩ := @AtInput.inInput fresh _ _ _ false hat
      have hsafe := hswitchable.1
      rw [← hcalls, ← hbytes] at hsafe
      obtain ⟨last, hreads, hlast⟩ := @InInput.run fresh _ [] .eof
        (fun last => last.headersParsed = stream.headersParsed + 1) _ _ _ _ hin hsafe (by
          intro cut samples pre after' hin' hnil _ _ hheaders
          obtain ⟨last, hturn', hended, hlast⟩ := @InInput.turn_eof fresh _ _ _ _ false hin' hnil
          exact ⟨last, .stop 2 (readSample_of_ended hturn' hended) (by simp),
            by rw [hlast, hheaders, hparsed]⟩)
      exact ⟨last, hreads.congr hturn.symm, hlast⟩
  | cons next inputs ih =>
      intro input stream hat hswitchable
      obtain ⟨after, hin, hbytes, hcalls, hparsed, hturn⟩ := @AtInput.inInput fresh _ _ _ false hat
      obtain ⟨hsafe, hneeded, hrest⟩ := hswitchable
      rw [← hcalls, ← hbytes] at hsafe
      obtain ⟨last, hreads, hlast⟩ := @InInput.run fresh _ (samplesOf (next :: inputs)) .eof
        (fun last => last.headersParsed = stream.headersParsed + (input :: next :: inputs).length)
        _ _ _ _ hin hsafe (by
          intro cut samples pre after' hin' hnil hsame hcount hheaders
          obtain ⟨switched, hturn', hat', hcalls', hparsed'⟩ := @InInput.turn_switch fresh _ _ _ _ _
            false next hin' hnil (by rw [hsame]; exact hneeded next rfl)
          obtain ⟨last, hreads, hlast⟩ := ih hat' (by
            rw [hcalls', hcount, hcalls]
            exact hrest)
          refine ⟨last, (reads_again_iff hturn' hat'.sampPending).mpr hreads, ?_⟩
          rw [hlast, hparsed', hheaders, hparsed]
          simp only [List.length_cons]
          omega)
      exact ⟨last, hreads.congr hturn.symm, hlast⟩

end SampleInputStream

end Nidas.Dynld
