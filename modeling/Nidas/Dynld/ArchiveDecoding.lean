import Nidas.Dynld.SampleDecoding

/-!
# Decoding an archive

An archive is read sample after sample.  Between two samples the stream is
`Before` the ones that are left, and a turn takes it to `Before` the rest.
`ZeroLengthSafe` says of the whole archive and the reads of the channel that no
sample without data meets an empty buffer with a null pointer.  The samples that
`readSample()` returns are those that were encoded if and only if this is so, and
then no count is ever out of step with what has been stored.
-/

namespace Nidas.Dynld

open Core Lib

namespace SampleInputStream

variable {fresh : ℕ → Bool} {stream : SampleInputStream} {samp : Sample}

/-! ## The condition -/

/-- The bytes of an archive. -/
def encodeAll (samples : List Sample) : List UInt8 := samples.flatMap Sample.encode

@[simp] theorem encodeAll_cons (samp : Sample) (rest : List Sample) :
    encodeAll (samp :: rest) = samp.encode ++ encodeAll rest := List.flatMap_cons

/-- Wherever a sample without data gets a new sample object, whose data pointer is
null, filling the buffer behind its header does no harm. -/
def ZeroLengthSafe (fresh : ℕ → Bool) (calls : ℕ) (bytes : List UInt8) (reads : List ChannelRead)
    (samples : List Sample) : Prop :=
  ∀ front samp back, samples = front ++ samp :: back → samp.data = [] →
    fresh (calls + front.length) = true →
    FillHarmless
      (advance ChannelRead.bytes ((encodeAll front).length + sampleHeaderSize) bytes reads)

theorem zeroLengthSafe_nil {calls : ℕ} {bytes : List UInt8} {reads : List ChannelRead} :
    ZeroLengthSafe fresh calls bytes reads [] := by
  intro front samp back hsplit
  cases front <;> cases hsplit

/-- The first sample, and those behind it. -/
theorem zeroLengthSafe_cons {calls : ℕ} {bytes : List UInt8} {reads : List ChannelRead}
    {rest : List Sample} :
    ZeroLengthSafe fresh calls bytes reads (samp :: rest) ↔
      (samp.data = [] → fresh calls = true →
        FillHarmless (advance ChannelRead.bytes sampleHeaderSize bytes reads)) ∧
      ZeroLengthSafe fresh (calls + 1)
        (advance ChannelRead.bytes (sampleHeaderSize + samp.data.length) bytes reads).1
        (advance ChannelRead.bytes (sampleHeaderSize + samp.data.length) bytes reads).2 rest := by
  have hshift : ∀ front : List Sample,
      advance ChannelRead.bytes ((encodeAll front).length + sampleHeaderSize)
          (advance ChannelRead.bytes (sampleHeaderSize + samp.data.length) bytes reads).1
          (advance ChannelRead.bytes (sampleHeaderSize + samp.data.length) bytes reads).2 =
        advance ChannelRead.bytes ((encodeAll (samp :: front)).length + sampleHeaderSize)
          bytes reads := by
    intro front
    rw [advance_advance, encodeAll_cons, List.length_append, Sample.length_encode, Nat.add_assoc,
      Nat.add_assoc, Nat.add_assoc]
  constructor
  · intro hsafe
    constructor
    · intro hempty hfresh
      have hfirst := hsafe [] samp rest rfl hempty hfresh
      rwa [show (encodeAll []).length + sampleHeaderSize = sampleHeaderSize from rfl] at hfirst
    · intro front other back hsplit hempty hfresh
      rw [hshift]
      apply hsafe (samp :: front) other back (by rw [hsplit]; rfl) hempty
      rwa [List.length_cons, Nat.add_comm front.length, ← Nat.add_assoc]
  · rintro ⟨hfirst, hrest⟩ front other back hsplit hempty hfresh
    cases front with
    | nil =>
        cases hsplit
        rw [show (encodeAll []).length + sampleHeaderSize = sampleHeaderSize from rfl]
        exact hfirst hempty hfresh
    | cons head front =>
        cases hsplit
        rw [← hshift]
        apply hrest front other back rfl hempty
        rwa [List.length_cons, Nat.add_comm front.length, ← Nat.add_assoc] at hfresh

/-- Opening the next read early changes nothing. -/
theorem zeroLengthSafe_open {calls : ℕ} {read : ChannelRead} {reads : List ChannelRead}
    {samples : List Sample} :
    ZeroLengthSafe fresh calls [] (read :: reads) samples ↔
      ZeroLengthSafe fresh calls read.bytes reads samples := by
  have hopen : ∀ front : List Sample,
      advance ChannelRead.bytes ((encodeAll front).length + sampleHeaderSize) [] (read :: reads) =
        advance ChannelRead.bytes ((encodeAll front).length + sampleHeaderSize) read.bytes reads := by
    intro front
    rw [advance_of_lt (by rw [List.length_nil, sampleHeaderSize]; omega), List.length_nil,
      Nat.sub_zero]
  unfold ZeroLengthSafe
  simp only [hopen]

/-! ## One sample after the other -/

/-- The stream stands before the headers of `samples`, which are all there is. -/
structure Before (samples : List Sample) (stream : SampleInputStream) : Prop where
  atHeader : AtHeader stream
  continuing : Continuing stream.io.reads
  unread : stream.io.unread = encodeAll samples
  encodable : ∀ samp ∈ samples, samp.Encodable

variable {samples rest : List Sample}

theorem Before.ahead (hbefore : Before (samp :: rest) stream) :
    SampleAhead samp stream.io stream.io.reads [] (encodeAll rest) := by
  refine ⟨(List.append_nil _).symm, hbefore.continuing, ?_⟩
  rw [← unread_eq, hbefore.unread, encodeAll_cons]

theorem Before.head_encodable (hbefore : Before (samp :: rest) stream) : samp.Encodable :=
  hbefore.encodable samp (List.mem_cons_self ..)

/-- Behind the sample the rest is left. -/
theorem Before.next (hbefore : Before (samp :: rest) stream) {io : IOStream} {block : BlockStats}
    {null : Bool} (hgood : block.good = true) (hcontinuing : Continuing io.reads)
    (hunread : io.unread = encodeAll rest) : Before rest (stream.withSample io block null) :=
  ⟨hbefore.atHeader.withSample hgood, hcontinuing, hunread,
    fun other hmem => hbefore.encodable other (List.mem_cons_of_mem _ hmem)⟩

theorem Before.unread_advance (hbefore : Before (samp :: rest) stream) :
    Lib.unread ChannelRead.bytes
        (advance ChannelRead.bytes (sampleHeaderSize + samp.data.length) stream.io.bytes
          stream.io.reads).1
        (advance ChannelRead.bytes (sampleHeaderSize + samp.data.length) stream.io.bytes
          stream.io.reads).2 = encodeAll rest := by
  rw [Lib.unread_advance, show Lib.unread ChannelRead.bytes stream.io.bytes stream.io.reads =
    stream.io.unread from rfl, hbefore.unread, encodeAll_cons,
    List.drop_left' (Sample.length_encode _)]

/-- What the condition says about the stream. -/
def Safe (fresh : ℕ → Bool) (samples : List Sample) (stream : SampleInputStream) : Prop :=
  ZeroLengthSafe fresh stream.poolCalls stream.io.bytes stream.io.reads samples

/-- **The next sample is returned, and the rest is as safe as before.** -/
theorem Before.turn {newinput : Bool} (hbefore : Before (samp :: rest) stream)
    (hharmless : samp.data = [] → fresh stream.poolCalls = true →
      FillHarmless (advance ChannelRead.bytes sampleHeaderSize stream.io.bytes stream.io.reads)) :
    ∃ after, nextSampleTurn fresh true none newinput stream = .ret (.sample samp) after ∧
      Before rest after ∧
      (Safe fresh rest after ↔ ZeroLengthSafe fresh (stream.poolCalls + 1)
        (advance ChannelRead.bytes (sampleHeaderSize + samp.data.length) stream.io.bytes
          stream.io.reads).1
        (advance ChannelRead.bytes (sampleHeaderSize + samp.data.length) stream.io.bytes
          stream.io.reads).2 rest) := by
  have hunread := hbefore.unread_advance
  by_cases hnull : samp.data = [] ∧ fresh stream.poolCalls = true
  · obtain ⟨hempty, hfresh⟩ := hnull
    obtain ⟨io, block, hturn, hgood, hcontinuing, hio⟩ := @nextSampleTurn_of_null fresh _ _ newinput
      _ _ _ hbefore.atHeader hbefore.head_encodable hbefore.ahead hempty hfresh hbefore.continuing
      (hharmless hempty hfresh)
    simp only [hempty, List.length_nil, Nat.add_zero] at hunread ⊢
    refine ⟨_, hturn, hbefore.next hgood hcontinuing ?_, ?_⟩
    · rcases hio with hio | ⟨read, hread, hbytes, hio⟩
      · rw [← hio] at hunread
        exact hunread
      · rw [← hio, Lib.unread, List.flatMap_cons, hread] at hunread
        rwa [unread_eq, hbytes]
    · rcases hio with hio | ⟨read, hread, hbytes, hio⟩
      · rw [← hio]
        rfl
      · rw [← hio, zeroLengthSafe_open, hread, ← hbytes]
        rfl
  · have hptr : (decide (samp.data.length = 0) && fresh stream.poolCalls) = false := by
      rw [Bool.and_eq_false_iff, decide_eq_false_iff_not, List.length_eq_zero_iff]
      rw [not_and_or, Bool.not_eq_true] at hnull
      exact hnull
    obtain ⟨io, block, hturn, hgood, _, hio⟩ := @nextSampleTurn_of_ahead fresh _ _ newinput _ _ _
      hbefore.atHeader hbefore.head_encodable hbefore.ahead hptr
    refine ⟨_, hturn, hbefore.next hgood (hbefore.continuing.advance hio) ?_, ?_⟩
    · rw [← hio] at hunread
      exact hunread
    · rw [← hio]
      rfl

/-- Behind the last sample the end of the channel is met. -/
theorem Before.turn_nil {newinput : Bool} (hbefore : Before [] stream) :
    ∃ after, nextSampleTurn fresh true none newinput stream = .again false after ∧ Ended after ∧
      after.headersParsed = stream.headersParsed := by
  apply hbefore.atHeader.turn_eof hbefore.continuing
  rw [hbefore.unread]
  decide

/-- A run that is safe returns all samples. -/
theorem Before.reads :
    ∀ {samples : List Sample} {stream : SampleInputStream}, Before samples stream →
      Safe fresh samples stream → ∃ last, Reads fresh stream samples .eof last := by
  intro samples
  induction samples with
  | nil =>
      intro stream hbefore _
      obtain ⟨after, hturn, hended, _⟩ := hbefore.turn_nil
      exact ⟨after, .stop 2 (readSample_of_ended hturn hended) (by simp)⟩
  | cons samp rest ih =>
      intro stream hbefore hsafe
      obtain ⟨hfirst, hrest⟩ := zeroLengthSafe_cons.mp hsafe
      obtain ⟨after, hturn, hafter, hiff⟩ := hbefore.turn hfirst
      obtain ⟨last, hreads⟩ := ih hafter (hiff.mpr hrest)
      exact ⟨last, .sample 1 (readSample_of_ret hturn) hreads⟩

/-- And only a run that is safe does. -/
theorem Before.safe_of_reads :
    ∀ {samples : List Sample} {stream last : SampleInputStream}, Before samples stream →
      Reads fresh stream samples .eof last → Safe fresh samples stream := by
  intro samples
  induction samples with
  | nil => intro stream last _ _; exact zeroLengthSafe_nil
  | cons samp rest ih =>
      intro stream last hbefore hreads
      have hfirst : samp.data = [] → fresh stream.poolCalls = true →
          FillHarmless
            (advance ChannelRead.bytes sampleHeaderSize stream.io.bytes stream.io.reads) := by
        intro hempty hfresh
        by_contra hharm
        obtain ⟨turns, outcome, after, hcall, hstop⟩ := readSample_of_harm hbefore.atHeader
          hbefore.head_encodable hbefore.ahead hempty hfresh hbefore.continuing hharm
        exact absurd (hreads.of_stop hcall hstop).1 (by simp)
      obtain ⟨after, hturn, hafter, hiff⟩ := hbefore.turn hfirst
      obtain ⟨left, hleft, hreads⟩ := hreads.of_sample (readSample_of_ret hturn)
      cases hleft
      exact zeroLengthSafe_cons.mpr ⟨hfirst, hiff.mp (ih hafter hreads)⟩

/-! ## The states of a run -/

/-- The states that are reached by turns of repeated `readSample()`, with what is
kept of the last `ReadResult`. -/
inductive Visited (fresh : ℕ → Bool) (start : SampleInputStream) : Bool → SampleInputStream → Prop
    where
  | start : Visited fresh start false start
  | again {newinput newinput' : Bool} {stream after : SampleInputStream}
      (hvisited : Visited fresh start newinput stream)
      (hturn : nextSampleTurn fresh true none newinput stream = .again newinput' after) :
      Visited fresh start newinput' after
  | ret {newinput : Bool} {outcome : Outcome} {stream after : SampleInputStream}
      (hvisited : Visited fresh start newinput stream)
      (hturn : nextSampleTurn fresh true none newinput stream = .ret outcome after) :
      Visited fresh start false after

/-- The stream at its start, with the filter off and no input header expected. -/
def archiveStart (bsf : BadSampleFilter) (reads : List ChannelRead) : SampleInputStream :=
  ofChannel false bsf reads

/-- The same after a call that has met the end of the channel at once. -/
def archiveEmpty (bsf : BadSampleFilter) : SampleInputStream :=
  { archiveStart bsf [] with io := { reads := [], newInput := false } }

/-- The stream when the first read is in the buffer. -/
def archiveOpened (bsf : BadSampleFilter) (first : ChannelRead) (rest : List ChannelRead) :
    SampleInputStream :=
  { io := ({ reads := first :: rest } : IOStream).load first rest
    expectHeader := false
    bsf := bsf
    inputHeaderParsed := true }

variable {bsf : BadSampleFilter} {reads : List ChannelRead}

/-- The first turn does one read, and goes on as if the header had been parsed. -/
theorem nextSampleTurn_archiveStart {first : ChannelRead} {rest : List ChannelRead}
    {newinput : Bool} :
    nextSampleTurn fresh true none newinput (archiveStart bsf (first :: rest)) =
      nextSampleTurn fresh true none newinput (archiveOpened bsf first rest) := by
  cases newinput <;> rfl

/-- Without any read there is nothing. -/
theorem nextSampleTurn_archiveStart_nil {newinput : Bool} :
    nextSampleTurn fresh true none newinput (archiveStart bsf []) =
      .ret .eof (archiveEmpty bsf) := by
  cases newinput <;> rfl

theorem nextSampleTurn_archiveEmpty {newinput : Bool} :
    nextSampleTurn fresh true none newinput (archiveEmpty bsf) = .ret .eof (archiveEmpty bsf) := by
  cases newinput <;> rfl

/-- What a channel gives for an archive: only the first read may be the first of an
input. -/
structure Archive (samples : List Sample) (reads : List ChannelRead) : Prop where
  bytes : bytesOf reads = encodeAll samples
  continuing : Continuing reads.tail
  encodable : ∀ samp ∈ samples, samp.Encodable

theorem Archive.before {first : ChannelRead} {rest : List ChannelRead}
    (harchive : Archive samples (first :: rest)) (hfilter : bsf.filterBadSamples = false) :
    Before samples (archiveOpened bsf first rest) :=
  ⟨⟨rfl, rfl, rfl, rfl, rfl, rfl, hfilter, rfl⟩, harchive.continuing, harchive.bytes,
    harchive.encodable⟩

/-- What holds at every state of a safe run. -/
inductive Fine (fresh : ℕ → Bool) (bsf : BadSampleFilter) (reads : List ChannelRead) :
    SampleInputStream → Prop where
  | start : Fine fresh bsf reads (archiveStart bsf reads)
  | empty : Fine fresh bsf reads (archiveEmpty bsf)
  | before {samples : List Sample} {stream : SampleInputStream} (hbefore : Before samples stream)
      (hsafe : Safe fresh samples stream) : Fine fresh bsf reads stream
  | ended {stream : SampleInputStream} (hended : Ended stream) : Fine fresh bsf reads stream

/-- A turn that keeps what is fine: it does not store through a null pointer. -/
def FineTurn (fresh : ℕ → Bool) (bsf : BadSampleFilter) (reads : List ChannelRead) : Turn → Prop
  | .ret outcome after => outcome ≠ .wild ∧ Fine fresh bsf reads after
  | .again _ after => Fine fresh bsf reads after

theorem Before.fineTurn {newinput : Bool} (hbefore : Before samples stream)
    (hsafe : Safe fresh samples stream) :
    FineTurn fresh bsf reads (nextSampleTurn fresh true none newinput stream) := by
  cases samples with
  | nil =>
      obtain ⟨after, hturn, hended, _⟩ := @Before.turn_nil fresh _ newinput hbefore
      rw [hturn]
      exact .ended hended
  | cons samp rest =>
      obtain ⟨hfirst, hrest⟩ := zeroLengthSafe_cons.mp hsafe
      obtain ⟨after, hturn, hafter, hiff⟩ := @Before.turn fresh _ _ _ newinput hbefore hfirst
      rw [hturn]
      exact ⟨by simp, .before hafter (hiff.mpr hrest)⟩

theorem Archive.fineTurn {newinput : Bool} (harchive : Archive samples reads)
    (hfilter : bsf.filterBadSamples = false) (hsafe : ZeroLengthSafe fresh 0 [] reads samples)
    (hfine : Fine fresh bsf reads stream) :
    FineTurn fresh bsf reads (nextSampleTurn fresh true none newinput stream) := by
  cases hfine with
  | start =>
      cases reads with
      | nil =>
          rw [nextSampleTurn_archiveStart_nil]
          exact ⟨by simp, .empty⟩
      | cons first rest =>
          rw [nextSampleTurn_archiveStart]
          exact (harchive.before hfilter).fineTurn (zeroLengthSafe_open.mp hsafe)
  | empty =>
      rw [nextSampleTurn_archiveEmpty]
      exact ⟨by simp, .empty⟩
  | before hbefore hsafe' => exact hbefore.fineTurn hsafe'
  | ended hended =>
      rw [nextSampleTurn_ended hended]
      exact ⟨by simp, .ended hended⟩

theorem Archive.fine {newinput : Bool} (harchive : Archive samples reads)
    (hfilter : bsf.filterBadSamples = false) (hsafe : ZeroLengthSafe fresh 0 [] reads samples)
    (hvisited : Visited fresh (archiveStart bsf reads) newinput stream) :
    Fine fresh bsf reads stream := by
  induction hvisited with
  | start => exact .start
  | @again newinput newinput' stream after _ hturn ih =>
      have hstep := @Archive.fineTurn fresh stream samples bsf reads newinput harchive hfilter
        hsafe ih
      rw [hturn] at hstep
      exact hstep
  | @ret newinput outcome stream after _ hturn ih =>
      have hstep := @Archive.fineTurn fresh stream samples bsf reads newinput harchive hfilter
        hsafe ih
      rw [hturn] at hstep
      exact hstep.2

theorem Fine.counted (hfine : Fine fresh bsf reads stream) : Counted stream := by
  cases hfine with
  | empty => exact ⟨rfl, fun samp hsamp => by cases hsamp⟩
  | start => exact ⟨rfl, fun samp hsamp => by cases hsamp⟩
  | before hbefore _ => exact hbefore.atHeader.counted
  | ended hended => exact hended.counted

/-! ## The result -/

/-- An archive is decoded to the samples that were encoded.  Then EOF is raised; on
the way the counts of what is to be read are what is missing, and nothing is stored
through a null pointer. -/
structure Decodes (fresh : ℕ → Bool) (start : SampleInputStream) (samples : List Sample) : Prop
    where
  reads : ∃ last, Reads fresh start samples .eof last
  counted : ∀ newinput stream, Visited fresh start newinput stream → Counted stream ∧
    ∀ after, nextSampleTurn fresh true none newinput stream ≠ .ret .wild after
  nullData : ∀ stream samp, (sampleFromHeader fresh stream).samp = some samp →
    samp.dataByteLength = 0 → fresh stream.poolCalls = true →
    (sampleFromHeader fresh stream).dptrNull = true

/-- A new sample without data has a null data pointer. -/
theorem sampleFromHeader_dptrNull {insamp : InSample}
    (hsamp : (sampleFromHeader fresh stream).samp = some insamp)
    (hlength : insamp.dataByteLength = 0) (hfresh : fresh stream.poolCalls = true) :
    (sampleFromHeader fresh stream).dptrNull = true := by
  unfold sampleFromHeader at hsamp ⊢
  dsimp only at hsamp ⊢
  cases haccept : stream.bsf.accept (SampleHeader.ofBytes stream.sheader) with
  | none =>
      rw [haccept] at hsamp
      cases hsamp
  | some type =>
      rw [haccept] at hsamp
      dsimp only at hsamp ⊢
      split_ifs at hsamp ⊢
      all_goals
        cases hsamp
        rw [hfresh, Bool.and_true]
        exact decide_eq_true hlength

/-- A sample without data. -/
def quietSample : Sample := ⟨0, .char, 5, []⟩

/-- A sample with one byte. -/
def byteSample : Sample := ⟨1, .char, 5, [65]⟩

theorem quietSample_encodable : quietSample.Encodable := by
  constructor <;> decide

theorem byteSample_encodable : byteSample.Encodable := by
  constructor <;> decide

/-- A read that ends one byte behind a header, and the rest. -/
def oddReads : List ChannelRead :=
  [⟨(encodeAll [quietSample, byteSample]).take 17, true, by decide⟩,
    ⟨(encodeAll [quietSample, byteSample]).drop 17, false, by decide⟩]

theorem oddReads_archive : Archive [quietSample, byteSample] oddReads := by
  refine ⟨by decide, by simp [Continuing, oddReads], ?_⟩
  intro samp hmem
  rw [List.mem_pair] at hmem
  rcases hmem with rfl | rfl
  · exact quietSample_encodable
  · exact byteSample_encodable

/-- One read that ends with the header. -/
def quietReads : List ChannelRead := [⟨encodeAll [quietSample], true, by decide⟩]

end SampleInputStream

end Nidas.Dynld
