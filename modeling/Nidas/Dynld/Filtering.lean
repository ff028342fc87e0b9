import Nidas.Dynld.BadBlocks

/-!
# Runs with the bad sample filter on

A run is any sequence of turns of `nextSample`, with and without `keepreading`, of
turns of searches, and of the physical reads that `readSamples()` does in between.
The samples that it returns outside of searches are clean samples of what follows
the input header, in their order, and without searches none of them is left out.

The header is read before the first sample.  When only the buffer is read, the flag
of the first read is still set behind the header, so the stream goes back and reads
the header again; nothing has been returned by then.
-/

namespace Nidas.Dynld

open Core Lib

namespace SampleInputStream

variable {fresh : ℕ → Bool} {start stream : SampleInputStream}

/-! ## Before the header has been read -/

/-- The buffer while nothing has been counted.  Without an input header nothing has
been taken from the input. -/
structure QuietIo (start : SampleInputStream) (io : IOStream) : Prop where
  offset : 0 ≤ io.nbytesIn - io.used.length
  whole : start.expectHeader = false →
    io.used = [] ∧ io.nbytesIn = 0 ∧ io.unread = start.io.unread

/-- Nothing has been counted yet. -/
structure Quiet (start stream : SampleInputStream) : Prop where
  bsf : stream.bsf = start.bsf
  expectHeader : stream.expectHeader = start.expectHeader
  sampPending : stream.sampPending = none
  ateof : stream.ateof = false
  skipSample : stream.skipSample = false
  block : stream.block = {}
  badSamples : stream.badSamples = 0
  goodSamples : stream.goodSamples = 0
  io : QuietIo start stream.io

/-- The buffer and the header that is being read may change. -/
theorem Quiet.withIo {io : IOStream} {samp : Option InSample}
    {headerToRead dataToRead headersParsed : ℕ} {sheader : List UInt8}
    {inputHeader : SampleInputHeader} {parsed : Bool} (hquiet : Quiet start stream)
    (hio : QuietIo start io) :
    Quiet start { stream with
      io := io, samp := samp, headerToRead := headerToRead, sheader := sheader,
      dataToRead := dataToRead, inputHeader := inputHeader, inputHeaderParsed := parsed,
      headersParsed := headersParsed } :=
  ⟨hquiet.bsf, hquiet.expectHeader, hquiet.sampPending, hquiet.ateof, hquiet.skipSample,
    hquiet.block, hquiet.badSamples, hquiet.goodSamples, hio⟩

theorem QuietIo.moved {io after : IOStream} (hquiet : QuietIo start io) (hmoved : io.Moved after)
    (hexpect : start.expectHeader = true) : QuietIo start after := by
  refine ⟨?_, fun hfalse => ?_⟩
  · rw [hmoved.offset]
    exact hquiet.offset
  · rw [hexpect] at hfalse
    cases hfalse

/-- A move is undone by going back. -/
theorem QuietIo.back {io after : IOStream} (hquiet : QuietIo start io) (hmoved : io.Moved after) :
    QuietIo start after.backup := by
  rw [hmoved.backup_eq]
  refine ⟨?_, fun hfalse => ?_⟩
  · rw [(IOStream.moved_backup io).offset]
    exact hquiet.offset
  · obtain ⟨hused, hin, hunread⟩ := hquiet.whole hfalse
    refine ⟨rfl, ?_, ?_⟩
    · simp [IOStream.backup, hused, hin]
    · rw [← hunread, unread_eq, unread_eq]
      simp [IOStream.backup, hused]

/-- The input header has not been read.  Only the first read of the channel may be
that of a new input. -/
structure Unparsed (start : SampleInputStream) (stream : SampleInputStream) : Prop
    extends Quiet start stream where
  parsed : stream.inputHeaderParsed = false
  tail : Continuing stream.io.reads.tail
  loaded : stream.io.bytes ≠ [] → Continuing stream.io.reads

/-- The input header has just been read. -/
structure Opened (start : SampleInputStream) (stream : SampleInputStream) : Prop
    extends Quiet start stream where
  parsed : stream.inputHeaderParsed = true
  headerToRead : stream.headerToRead = sampleHeaderSize
  sheader : stream.sheader = []
  samp : stream.samp = none
  continuing : Continuing stream.io.reads

/-- A stream that is quiet, and whose first read has been done. -/
structure Loaded (start : SampleInputStream) (stream : SampleInputStream) : Prop
    extends Quiet start stream where
  parsed : stream.inputHeaderParsed = false
  continuing : Continuing stream.io.reads

theorem Loaded.unparsed (hloaded : Loaded start stream) : Unparsed start stream :=
  ⟨hloaded.toQuiet, hloaded.parsed,
    fun read hmem => hloaded.continuing read (List.mem_of_mem_tail hmem),
    fun _ => hloaded.continuing⟩

theorem unparsed_ofChannel {expectHeader : Bool} {bsf : BadSampleFilter} {reads : List ChannelRead}
    (htail : Continuing reads.tail) :
    Unparsed (ofChannel expectHeader bsf reads) (ofChannel expectHeader bsf reads) :=
  ⟨⟨rfl, rfl, rfl, rfl, rfl, rfl, rfl, rfl, Int.le_refl 0, fun _ => ⟨rfl, rfl, rfl⟩⟩, rfl, htail,
    fun hne => absurd rfl hne⟩

/-- A physical read before the header has been read. -/
theorem Unparsed.load (hunparsed : Unparsed start stream) {first : ChannelRead}
    {rest : List ChannelRead} (hbytes : stream.io.bytes = [])
    (hreads : stream.io.reads = first :: rest) :
    Loaded start { stream with io := stream.io.load first rest } := by
  have htail := hunparsed.tail
  rw [hreads] at htail
  refine ⟨hunparsed.toQuiet.withIo ⟨?_, fun hfalse => ?_⟩, hunparsed.parsed, htail⟩
  · have hoffset := hunparsed.io.offset
    dsimp only [IOStream.load, List.length_nil]
    split_ifs <;> omega
  · obtain ⟨_, hin, hunread⟩ := hunparsed.io.whole hfalse
    refine ⟨rfl, ?_, ?_⟩
    · simp [IOStream.load, hin]
    · rw [← hunread, unread_eq, unread_eq, hbytes, hreads]
      rfl

/-- What `IOStream::read` does before the header has been read. -/
theorem Unparsed.read (hunparsed : Unparsed start stream) :
    (stream.io.read = (none, stream.io.atEof) ∧
        Unparsed start { stream with io := stream.io.atEof }) ∨
      ∃ len io, stream.io.read = (some len, io) ∧ Loaded start { stream with io := io } := by
  by_cases hbytes : stream.io.bytes = []
  · cases hreads : stream.io.reads with
    | nil =>
        refine Or.inl ⟨?_, ⟨hunparsed.toQuiet.withIo ⟨?_, fun hfalse => ?_⟩, hunparsed.parsed,
          hunparsed.tail, fun hne => absurd rfl hne⟩⟩
        · rw [IOStream.read, if_neg (by simp [IOStream.available, hbytes]), hreads]
        · have hoffset := hunparsed.io.offset
          dsimp only [IOStream.atEof, List.length_nil]
          omega
        · obtain ⟨_, hin, hunread⟩ := hunparsed.io.whole hfalse
          refine ⟨rfl, hin, ?_⟩
          rw [← hunread, unread_eq, unread_eq, hbytes]
          rfl
    | cons first rest =>
        exact Or.inr ⟨_, _, read_of_nil hbytes hreads, hunparsed.load hbytes hreads⟩
  · refine Or.inr ⟨0, { stream.io with newInput := false }, ?_,
      hunparsed.toQuiet.withIo ⟨hunparsed.io.offset, hunparsed.io.whole⟩, hunparsed.parsed,
      hunparsed.loaded hbytes⟩
    exact if_pos (List.length_pos_iff.mpr hbytes)

/-- What can come of parsing: the input is open, or its header has not been read
completely, with or without an exception. -/
inductive ParseSpec (start : SampleInputStream) : Option String × SampleInputStream → Prop where
  | opened {after : SampleInputStream} (hopened : Opened start after) : ParseSpec start (none, after)
  | unparsed {what : Option String} {after : SampleInputStream} (hunparsed : Unparsed start after) :
      ParseSpec start (what, after)

/-- Parsing leaves the header unread, or opens the input. -/
theorem Loaded.parse (hloaded : Loaded start stream) : ParseSpec start (parseInputHeader stream) := by
  have hmoved := parse_moved stream.inputHeader stream.io
  have hreads : Continuing (stream.inputHeader.parse stream.io).io.reads := by
    rw [hmoved.reads]
    exact hloaded.continuing
  unfold parseInputHeader
  dsimp only
  by_cases hexpect : (!stream.expectHeader) = true
  · rw [if_pos hexpect]
    exact .opened ⟨hloaded.toQuiet.withIo hloaded.io, rfl, rfl, rfl, rfl, hloaded.continuing⟩
  · rw [if_neg hexpect]
    have hstart : start.expectHeader = true := by
      rw [← hloaded.expectHeader]
      simpa using hexpect
    have hio := hloaded.io.moved hmoved hstart
    cases (stream.inputHeader.parse stream.io).result with
    | complete => exact .opened ⟨hloaded.toQuiet.withIo hio, rfl, rfl, rfl, rfl, hreads⟩
    | more => exact .unparsed (Loaded.unparsed ⟨hloaded.toQuiet.withIo hio, rfl, hreads⟩)
    | exception what =>
        dsimp only
        split_ifs
        · exact .unparsed (Loaded.unparsed ⟨hloaded.toQuiet.withIo hio, hloaded.parsed, hreads⟩)
        · exact .opened ⟨hloaded.toQuiet.withIo (hloaded.io.back hmoved), rfl, rfl, rfl, rfl, hreads⟩

/-- How reading the input header ends. -/
inductive HeaderSpec (start : SampleInputStream) : HeaderRead → Prop where
  | parsed {after : SampleInputStream} (hopened : Opened start after) : HeaderSpec start (.parsed after)
  | eof {after : SampleInputStream} (hunparsed : Unparsed start after) : HeaderSpec start (.eof after)
  | exception {what : String} {after : SampleInputStream} (hunparsed : Unparsed start after) :
      HeaderSpec start (.exception what after)

theorem readInputHeaderLoop_of_opened {fuel : ℕ} (hopened : Opened start stream) :
    readInputHeaderLoop fuel stream = .parsed stream := by
  cases fuel <;> exact if_pos hopened.parsed

theorem readInputHeaderLoop_spec :
    ∀ {fuel : ℕ} {stream : SampleInputStream}, Unparsed start stream →
      HeaderSpec start (readInputHeaderLoop fuel stream) := by
  intro fuel
  induction fuel with
  | zero =>
      intro stream hunparsed
      have hfalse : ¬ stream.inputHeaderParsed = true := by
        rw [hunparsed.parsed]
        exact Bool.false_ne_true
      rw [readInputHeaderLoop, if_neg hfalse]
      exact .eof hunparsed
  | succ fuel ih =>
      intro stream hunparsed
      have hfalse : ¬ stream.inputHeaderParsed = true := by
        rw [hunparsed.parsed]
        exact Bool.false_ne_true
      rw [readInputHeaderLoop, if_neg hfalse]
      rcases hunparsed.read with ⟨hread, hafter⟩ | ⟨len, io, hread, hloaded⟩
      · rw [hread]
        exact .eof hafter
      · rw [hread]
        dsimp only
        have hparse := hloaded.parse
        generalize parseInputHeader { stream with io := io } = result at hparse ⊢
        cases hparse with
        | opened hopened =>
            dsimp only
            rw [readInputHeaderLoop_of_opened hopened]
            exact .parsed hopened
        | @unparsed what after hunparsed' =>
            cases what with
            | some what => exact .exception hunparsed'
            | none => exact ih hunparsed'

/-- **Reading the input header counts nothing.** -/
theorem Unparsed.readInputHeader (hunparsed : Unparsed start stream) :
    HeaderSpec start (readInputHeader stream) :=
  readInputHeaderLoop_spec hunparsed

/-! ## The first turns -/

/-- An open input stands before its first header. -/
theorem Opened.headerPhase (hopened : Opened start stream) (hfilter : start.bsf.filterBadSamples = true)
    (hsafe : StartSafe stream.io.nbytesIn 0 (scan start.bsf stream.io.unread)) :
    HeaderPhase stream.io.nbytesIn stream (clean false (scan start.bsf stream.io.unread)) := by
  have hahead : headersAhead stream = scan start.bsf stream.io.unread := by
    rw [headersAhead, hopened.sheader, hopened.bsf]
    rfl
  have hoffset := hopened.io.offset
  refine ⟨⟨hopened.parsed, hopened.ateof, by rw [hopened.bsf]; exact hfilter,
    hopened.continuing⟩, hopened.samp, by rw [hopened.headerToRead]; decide, ?_, false, ?_, ?_⟩
  · rw [hopened.headerToRead, hopened.sheader]
    rfl
  · rw [hahead, hopened.sheader, hopened.block, hopened.skipSample]
    refine .opening 0 (by omega) ?_ ?_ hsafe rfl rfl rfl rfl
    · simp
    · unfold badStart
      split_ifs <;> decide
  · rw [hahead, hopened.sampPending, pendingClean_none, List.nil_append]

/-- Going back to the start of the buffer counts nothing. -/
theorem Quiet.handleNewInput {io : IOStream} (hquiet : Quiet start stream)
    (hmoved : stream.io.Moved io) (hcontinuing : Continuing stream.io.reads) :
    Loaded start ({ stream with io := io } : SampleInputStream).handleNewInput := by
  have hclose : ({ stream with io := io } : SampleInputStream).closeBlocks =
      { stream with io := io } := by
    simp [closeBlocks, hquiet.badSamples, hquiet.goodSamples]
  rw [SampleInputStream.handleNewInput, hclose]
  refine ⟨hquiet.withIo (hquiet.io.back hmoved), rfl, ?_⟩
  dsimp only [IOStream.backup]
  rw [hmoved.reads]
  exact hcontinuing

/-- When only the buffer is read, the flag of the first read sends the stream back. -/
theorem Opened.stale (hopened : Opened start stream) (hnew : stream.io.newInput = true)
    {search : Option ℤ} :
    ∃ after, readHeader fresh false search stream = .again true after ∧ Unparsed start after := by
  have hflag : (stream.io.readBuf sampleHeaderSize).2.newInput = true := hnew
  have hread : ∃ rr, rr.newinput = true ∧ readBlock false true sampleHeaderSize stream =
      .block (stream.io.readBuf sampleHeaderSize).1
        (sizeSub sampleHeaderSize (stream.io.readBuf sampleHeaderSize).1.length) rr
        (SampleInputStream.handleNewInput
          { stream with io := (stream.io.readBuf sampleHeaderSize).2 }) := by
    rw [readBlock, readBlockLoop]
    simp only [SampleInputStream.read, Bool.false_eq_true, if_false, if_true, hflag,
      Bool.false_and]
    exact ⟨_, rfl, rfl⟩
  obtain ⟨rr, hnewinput, hread⟩ := hread
  rw [readHeader, hopened.headerToRead, if_pos (by decide), hread, headerRead]
  dsimp only
  rw [hnewinput, Bool.or_true, if_pos rfl]
  have hback := hopened.toQuiet.handleNewInput (IOStream.moved_readBuf sampleHeaderSize stream.io)
    hopened.continuing
  exact ⟨_, rfl, Loaded.unparsed ⟨hback.toQuiet.withIo hback.io, hback.parsed, hback.continuing⟩⟩

/-! ## Runs -/

/-- What a call hands on: a search does not return samples. -/
def returned : Option ℤ → Outcome → List Sample
  | none, .sample samp => [samp]
  | _, _ => []

/-- The states of a run, with what is kept of the last `ReadResult`, whether there
has been a search, and the samples that have been returned.  Nothing is said about a
run that has stored through a null pointer. -/
inductive Runs (fresh : ℕ → Bool) (start : SampleInputStream) :
    Bool → Bool → List Sample → SampleInputStream → Prop where
  | start : Runs fresh start false false [] start
  | again {newinput newinput' searched : Bool} {out : List Sample}
      {stream after : SampleInputStream} (keepreading : Bool) (search : Option ℤ)
      (hrun : Runs fresh start newinput searched out stream)
      (hturn : nextSampleTurn fresh keepreading search newinput stream = .again newinput' after) :
      Runs fresh start newinput' (searched || search.isSome) out after
  | ret {newinput searched : Bool} {out : List Sample} {stream after : SampleInputStream}
      {outcome : Outcome} (keepreading : Bool) (search : Option ℤ)
      (hrun : Runs fresh start newinput searched out stream)
      (hturn : nextSampleTurn fresh keepreading search newinput stream = .ret outcome after)
      (hwild : outcome ≠ .wild) :
      Runs fresh start false (searched || search.isSome) (out ++ returned search outcome) after
  -- the physical read at the start of `readSamples`
  | fill {searched : Bool} {out : List Sample} {stream : SampleInputStream}
      (hrun : Runs fresh start false searched out stream) :
      Runs fresh start false searched out (stream.read true false 0).2

/-- What follows the input header, and the place where it starts. -/
structure Body where
  bytes : List UInt8
  offset : ℤ

/-- The header of the input is read in a run, and `body` follows it.  Without a header
it is the whole input. -/
def Opens (fresh : ℕ → Bool) (start : SampleInputStream) (body : Body) : Prop :=
  (∃ newinput searched out stream after, Runs fresh start newinput searched out stream ∧
    stream.ateof = false ∧ stream.inputHeaderParsed = false ∧
    readInputHeader stream = .parsed after ∧ body = ⟨after.io.unread, after.io.nbytesIn⟩) ∧
  (start.expectHeader = false → body = ⟨start.io.unread, 0⟩)

/-- The samples of the input that are not next to corrupt bytes. -/
def cleanSamples (bsf : BadSampleFilter) (body : Body) : List Sample :=
  clean false (scan bsf body.bytes)

/-- What has been returned, and what is still expected. -/
def Delivered (good : List Sample) (searched : Bool) (out expected : List Sample) : Prop :=
  ∃ done, done ++ expected = good ∧ out.Sublist done ∧ (searched = false → out = done)

variable {newinput searched : Bool} {out good expected : List Sample}

theorem Delivered.mono (hdelivered : Delivered good searched out expected) (other : Bool) :
    Delivered good (searched || other) out expected := by
  obtain ⟨done, hdone, hsublist, hall⟩ := hdelivered
  exact ⟨done, hdone, hsublist, fun hnot => hall (Bool.or_eq_false_iff.mp hnot).1⟩

/-- Samples that a search leaves out. -/
theorem Delivered.lose {lost rest : List Sample} {searching : Bool}
    (hdelivered : Delivered good searched out expected) (hexpected : expected = lost ++ rest)
    (hlost : searching = false → lost = []) : Delivered good (searched || searching) out rest := by
  obtain ⟨done, hdone, hsublist, hall⟩ := hdelivered
  refine ⟨done ++ lost, by rw [List.append_assoc, ← hexpected, hdone],
    hsublist.trans (List.sublist_append_left done lost), fun hnot => ?_⟩
  obtain ⟨hsearched, hsearching⟩ := Bool.or_eq_false_iff.mp hnot
  rw [hlost hsearching, List.append_nil]
  exact hall hsearched

/-- A sample is returned, or left out by a search. -/
theorem Delivered.sample {samp : Sample} {rest : List Sample} {search : Option ℤ}
    (hdelivered : Delivered good searched out (samp :: rest)) :
    Delivered good (searched || search.isSome) (out ++ returned search (.sample samp)) rest := by
  cases search with
  | some time =>
      rw [returned, List.append_nil]
      · exact hdelivered.lose (List.singleton_append).symm (fun hfalse => by cases hfalse)
      · simp
  | none =>
      obtain ⟨done, hdone, hsublist, hall⟩ := hdelivered
      refine ⟨done ++ [samp], by rw [List.append_assoc]; exact hdone,
        hsublist.append (List.Sublist.refl _), fun hnot => ?_⟩
      rw [Option.isSome_none, Bool.or_false] at hnot
      rw [hall hnot]
      rfl

/-- What holds at every state of a run. -/
inductive Following (fresh : ℕ → Bool) (start : SampleInputStream) (searched : Bool)
    (out : List Sample) : Bool → SampleInputStream → Prop where
  | unparsed {newinput : Bool} {stream : SampleInputStream} (hunparsed : Unparsed start stream)
      (hout : out = []) : Following fresh start searched out newinput stream
  | stands {stream : SampleInputStream} {body : Body} {expected : List Sample}
      (hopens : Opens fresh start body) (hstands : Stands body.offset stream expected)
      (hdelivered : Delivered (cleanSamples start.bsf body) searched out expected) :
      Following fresh start searched out false stream
  | ended {stream : SampleInputStream} {body : Body} {expected : List Sample}
      (hopens : Opens fresh start body) (hended : EndedWith stream expected)
      (hdelivered : Delivered (cleanSamples start.bsf body) searched out expected) :
      Following fresh start searched out false stream
  | idle {newinput : Bool} {stream : SampleInputStream} (hateof : stream.ateof = true)
      (hpending : stream.sampPending = none) (hout : out = []) :
      Following fresh start searched out newinput stream

/-- A turn keeps this, unless it stores through a null pointer. -/
inductive FollowingTurn (fresh : ℕ → Bool) (start : SampleInputStream) (searched : Bool)
    (search : Option ℤ) (out : List Sample) : Turn → Prop where
  | again {newinput : Bool} {after : SampleInputStream}
      (hfollowing : Following fresh start (searched || search.isSome) out newinput after) :
      FollowingTurn fresh start searched search out (.again newinput after)
  | ret {outcome : Outcome} {after : SampleInputStream}
      (hfollowing : Following fresh start (searched || search.isSome)
        (out ++ returned search outcome) false after) :
      FollowingTurn fresh start searched search out (.ret outcome after)
  | wild {after : SampleInputStream} :
      FollowingTurn fresh start searched search out (.ret .wild after)

variable {keepreading : Bool} {search : Option ℤ} {body : Body}

theorem returned_of_not_sample {outcome : Outcome} (hnot : ∀ samp, outcome ≠ .sample samp) :
    returned search outcome = [] := by
  cases search with
  | some time => rfl
  | none =>
      cases outcome with
      | sample samp => exact absurd rfl (hnot samp)
      | _ => rfl

/-- A turn within the input. -/
theorem TurnSpec.following {turn : Turn} (hopens : Opens fresh start body)
    (hdelivered : Delivered (cleanSamples start.bsf body) searched out expected)
    (hturn : TurnSpec body.offset search.isSome expected turn) :
    FollowingTurn fresh start searched search out turn := by
  cases hturn with
  | again hexpected hlost hstands => exact .again (.stands hopens hstands (hdelivered.lose hexpected hlost))
  | ended hended => exact .again (.ended hopens hended (hdelivered.mono _))
  | sample hexpected hstands =>
      rw [hexpected] at hdelivered
      exact .ret (.stands hopens hstands hdelivered.sample)
  | null hstands =>
      refine .ret (.stands hopens hstands ?_)
      rw [returned_of_not_sample (by simp), List.append_nil]
      exact hdelivered.mono _
  | wild => exact .wild

/-- At the end of the channel a pending sample is returned. -/
theorem EndedWith.following (hopens : Opens fresh start body)
    (hdelivered : Delivered (cleanSamples start.bsf body) searched out expected)
    (hended : EndedWith stream expected) :
    FollowingTurn fresh start searched search out (handleEOF keepreading stream) := by
  obtain ⟨hateof, hprefix⟩ := hended
  rw [handleEOF]
  cases hpending : stream.sampPending with
  | some held =>
      rw [hpending] at hprefix
      obtain ⟨rest, hrest⟩ := hprefix
      have hexpected : expected = held.toSample :: rest := hrest.symm
      rw [hexpected] at hdelivered
      exact .ret (.ended hopens ⟨hateof, List.nil_prefix⟩ hdelivered.sample)
  | none =>
      have hsame : Following fresh start (searched || search.isSome) out false stream :=
        .ended hopens ⟨hateof, hprefix⟩ (hdelivered.mono _)
      cases keepreading with
      | true =>
          refine .ret ?_
          rw [returned_of_not_sample (by simp), List.append_nil]
          exact hsame
      | false =>
          refine .ret ?_
          rw [returned_of_not_sample (by simp), List.append_nil]
          exact hsame

/-- Nothing is left and nothing is pending. -/
theorem following_of_idle (hateof : stream.ateof = true) (hpending : stream.sampPending = none)
    (hout : out = []) :
    FollowingTurn fresh start searched search out (handleEOF keepreading stream) := by
  rw [handleEOF, hpending]
  cases keepreading with
  | true =>
      refine .ret (.idle hateof hpending ?_)
      rw [hout, returned_of_not_sample (by simp)]
      rfl
  | false =>
      refine .ret (.idle hateof hpending ?_)
      rw [hout, returned_of_not_sample (by simp)]
      rfl

theorem Within.turn (hwithin : Within stream) :
    nextSampleTurn fresh keepreading search false stream =
      readHeader fresh keepreading search stream := by
  unfold nextSampleTurn
  rw [hwithin.ateof, hwithin.parsed]
  cases stream.sampPending <;> rfl

theorem Stands.within {offset : ℤ} (hstands : Stands offset stream expected) : Within stream := by
  cases hstands with
  | header hphase => exact hphase.toWithin
  | data hphase => exact hphase.toWithin

theorem Stands.turn {offset : ℤ} (hstands : Stands offset stream expected) :
    TurnSpec offset search.isSome expected
      (nextSampleTurn fresh keepreading search false stream) := by
  rw [hstands.within.turn]
  cases hstands with
  | header hphase hnew =>
      have hlt : stream.headerToRead < 2 ^ 64 := by
        have hcount := hphase.count
        rw [sampleHeaderSize] at hcount
        omega
      exact hphase.turn (readBlock_within hlt (fun hptr => by cases hptr) hphase.continuing hnew)
  | data hphase hpending hnew =>
      rw [readHeader, hphase.headerToRead, if_neg (Nat.lt_irrefl 0)]
      exact hphase.turn hpending hnew

theorem Opened.body_eq (hopened : Opened start stream) (hexpect : start.expectHeader = false) :
    (⟨stream.io.unread, stream.io.nbytesIn⟩ : Body) = ⟨start.io.unread, 0⟩ := by
  obtain ⟨_, hin, hunread⟩ := hopened.io.whole hexpect
  rw [hin, hunread]

/-- The turn that opens the input. -/
theorem Opened.turn (hopened : Opened start stream) (hfilter : start.bsf.filterBadSamples = true)
    (hopens : Opens fresh start ⟨stream.io.unread, stream.io.nbytesIn⟩)
    (hsafe : StartSafe stream.io.nbytesIn 0 (scan start.bsf stream.io.unread)) (hout : out = []) :
    FollowingTurn fresh start searched search out
      (readHeader fresh keepreading search stream) := by
  have hphase := hopened.headerPhase hfilter hsafe
  have hdelivered : Delivered (cleanSamples start.bsf ⟨stream.io.unread, stream.io.nbytesIn⟩)
      searched out (clean false (scan start.bsf stream.io.unread)) :=
    ⟨[], rfl, by rw [hout], fun _ => hout⟩
  have hlt : stream.headerToRead < 2 ^ 64 := by
    rw [hopened.headerToRead]
    decide
  cases keepreading with
  | true =>
      exact (hphase.turn (readBlock_within_keepreading hlt hopened.continuing)).following hopens
        hdelivered
  | false =>
      by_cases hnew : stream.io.newInput = true
      · obtain ⟨after, hturn, hunparsed⟩ := @Opened.stale fresh _ _ hopened hnew search
        rw [hturn]
        exact .again (.unparsed hunparsed hout)
      · rw [Bool.not_eq_true] at hnew
        exact (hphase.turn (readBlock_within hlt (fun hptr => by cases hptr) hopened.continuing
          hnew)).following hopens hdelivered

/-- What an unread header does to a turn. -/
theorem Unparsed.turn (hunparsed : Unparsed start stream) :
    nextSampleTurn fresh keepreading search newinput stream =
      match SampleInputStream.readInputHeader stream with
      | .eof stream => .ret .eof stream
      | .exception what stream => .ret (.exception what) stream
      | .parsed stream => readHeader fresh keepreading search stream := by
  unfold nextSampleTurn
  rw [hunparsed.ateof, hunparsed.sampPending, hunparsed.parsed]
  cases newinput <;> rfl

/-- **A turn keeps what holds of a run.** -/
theorem Following.turn (hfollowing : Following fresh start searched out newinput stream)
    (hrun : Runs fresh start newinput searched out stream)
    (hfilter : start.bsf.filterBadSamples = true)
    (hsafe : ∀ body, Opens fresh start body → StartSafe body.offset 0 (scan start.bsf body.bytes)) :
    FollowingTurn fresh start searched search out
      (nextSampleTurn fresh keepreading search newinput stream) := by
  cases hfollowing with
  | unparsed hunparsed hout =>
      rw [hunparsed.turn]
      have hheader := hunparsed.readInputHeader
      cases hresult : SampleInputStream.readInputHeader stream with
      | parsed after =>
          rw [hresult] at hheader
          cases hheader with
          | parsed hopened =>
              have hopens : Opens fresh start ⟨after.io.unread, after.io.nbytesIn⟩ :=
                ⟨⟨newinput, searched, out, stream, after, hrun, hunparsed.ateof, hunparsed.parsed,
                  hresult, rfl⟩, hopened.body_eq⟩
              exact hopened.turn hfilter hopens (hsafe _ hopens) hout
      | eof after =>
          rw [hresult] at hheader
          cases hheader with
          | eof hafter =>
              refine .ret (.unparsed hafter ?_)
              rw [hout, returned_of_not_sample (by simp)]
              rfl
      | exception what after =>
          rw [hresult] at hheader
          cases hheader with
          | exception hafter =>
              refine .ret (.unparsed hafter ?_)
              rw [hout, returned_of_not_sample (by simp)]
              rfl
  | stands hopens hstands hdelivered => exact hstands.turn.following hopens hdelivered
  | ended hopens hended hdelivered =>
      unfold nextSampleTurn
      rw [if_pos hended.1]
      exact EndedWith.following hopens hdelivered hended
  | idle hateof hpending hout =>
      unfold nextSampleTurn
      rw [if_pos hateof]
      exact following_of_idle hateof hpending hout

/-! ## Physical reads between the calls -/

theorem fill_of_eof {io : IOStream} (hread : stream.io.read = (none, io))
    (hnew : io.newInput = false) :
    (stream.read true false 0).2 = { stream with io := io, ateof := true } := by
  simp [SampleInputStream.read, hread, hnew]

theorem fill_of_read {io : IOStream} {len : ℕ} (hread : stream.io.read = (some len, io)) :
    (stream.read true false 0).2 =
      if io.newInput then ({ stream with io := io } : SampleInputStream).handleNewInput
      else { stream with io := io } := by
  simp only [SampleInputStream.read, hread, if_true, Bool.false_eq_true, if_false]
  split_ifs <;> rfl

theorem Unparsed.fill (hunparsed : Unparsed start stream) :
    Unparsed start (stream.read true false 0).2 ∨
      (stream.read true false 0).2.ateof = true ∧
        (stream.read true false 0).2.sampPending = none := by
  rcases hunparsed.read with ⟨hread, hafter⟩ | ⟨len, io, hread, hloaded⟩
  · rw [fill_of_eof hread rfl]
    exact Or.inr ⟨rfl, hunparsed.sampPending⟩
  · rw [fill_of_read hread]
    split_ifs
    · exact Or.inl (hloaded.toQuiet.handleNewInput (IOStream.Moved.refl _) hloaded.continuing).unparsed
    · exact Or.inl hloaded.unparsed

/-- The same bytes are ahead. -/
theorem Stands.refill {offset : ℤ} {io : IOStream} (hstands : Stands offset stream expected)
    (hunread : io.unread = stream.io.unread) (hin : io.nbytesIn = stream.io.nbytesIn)
    (hnew : io.newInput = false) (hcontinuing : Continuing io.reads) :
    Stands offset { stream with io := io } expected := by
  cases hstands with
  | header hphase _ =>
      obtain ⟨shifted, hstatistics, hexpected⟩ := hphase.block
      have hahead : headersAhead { stream with io := io } = headersAhead stream := by
        dsimp only [headersAhead]
        rw [hunread]
      refine .header ⟨⟨hphase.parsed, hphase.ateof, hphase.filter, hcontinuing⟩, hphase.samp,
        hphase.headerToRead_pos, hphase.count, shifted, ?_, ?_⟩ hnew
      · rw [hahead]
        dsimp only
        rw [hin]
        exact hstatistics
      · rw [hahead]
        exact hexpected
  | data hphase hpending _ =>
      refine .data ⟨⟨hphase.parsed, hphase.ateof, hphase.filter, hcontinuing⟩, hphase.samp_eq,
        hphase.headerToRead, hphase.count, hphase.length_lt, hphase.null, ?_, ?_⟩ hpending hnew
      · dsimp only
        rw [hin]
        exact hphase.block
      · dsimp only
        rw [hunread]
        exact hphase.expected_eq

/-- At the end of the channel no header is left, so what is pending is clean. -/
theorem Stands.pending_of_eof {offset : ℤ} (hstands : Stands offset stream expected)
    (hunread : stream.io.unread = []) :
    (stream.sampPending.map InSample.toSample).toList <+: expected := by
  cases hstands with
  | header hphase _ =>
      obtain ⟨shifted, _, hexpected⟩ := hphase.block
      have hnone : headersAhead stream = [] := by
        apply scan_of_lt
        have hcount := hphase.count
        have hpos := hphase.headerToRead_pos
        rw [hunread, List.append_nil]
        omega
      rw [hexpected, hnone, pendingClean]
      exact List.prefix_append ..
  | data hphase hpending _ =>
      rw [hpending]
      exact List.nil_prefix

theorem Stands.fill {offset : ℤ} (hstands : Stands offset stream expected) :
    Stands offset (stream.read true false 0).2 expected ∨
      EndedWith (stream.read true false 0).2 expected := by
  have hcontinuing := hstands.within.continuing
  by_cases hbytes : stream.io.bytes = []
  · cases hreads : stream.io.reads with
    | nil =>
        have hread : stream.io.read = (none, stream.io.atEof) := by
          rw [IOStream.read, if_neg (by simp [IOStream.available, hbytes]), hreads]
        rw [fill_of_eof hread rfl]
        refine Or.inr ⟨rfl, hstands.pending_of_eof ?_⟩
        rw [unread_eq, hbytes, hreads]
        rfl
    | cons first rest =>
        rw [hreads] at hcontinuing
        have hfirst : (stream.io.load first rest).newInput = false := hcontinuing.of_cons.1
        rw [fill_of_read (read_of_nil hbytes hreads), hfirst, if_neg Bool.false_ne_true]
        refine Or.inl (hstands.refill ?_ ?_ hfirst hcontinuing.of_cons.2)
        · rw [unread_eq, unread_eq, hbytes, hreads]
          rfl
        · exact if_neg (by rw [hcontinuing.of_cons.1]; exact Bool.false_ne_true)
  · have hread : stream.io.read = (some 0, { stream.io with newInput := false }) :=
      if_pos (List.length_pos_iff.mpr hbytes)
    rw [fill_of_read hread, if_neg Bool.false_ne_true]
    exact Or.inl (hstands.refill rfl rfl rfl hcontinuing)

/-- The end of the channel and a pending sample are not forgotten. -/
theorem fill_ended (hateof : stream.ateof = true) :
    (stream.read true false 0).2.ateof = true ∧
      (stream.read true false 0).2.sampPending = stream.sampPending := by
  have hclose : ∀ other : SampleInputStream,
      other.handleNewInput.ateof = other.ateof ∧
        other.handleNewInput.sampPending = other.sampPending := by
    intro other
    unfold handleNewInput closeBlocks
    dsimp only
    split_ifs <;> exact ⟨rfl, rfl⟩
  unfold SampleInputStream.read
  dsimp only
  cases stream.io.read with
  | mk len io =>
      cases len <;> (dsimp only; split_ifs <;> simp [hclose, hateof])

/-- **A physical read keeps what holds of a run.** -/
theorem Following.fill (hfollowing : Following fresh start searched out false stream) :
    Following fresh start searched out false (stream.read true false 0).2 := by
  cases hfollowing with
  | unparsed hunparsed hout =>
      rcases hunparsed.fill with hafter | ⟨hateof, hpending⟩
      · exact .unparsed hafter hout
      · exact .idle hateof hpending hout
  | stands hopens hstands hdelivered =>
      rcases hstands.fill with hafter | hended
      · exact .stands hopens hafter hdelivered
      · exact .ended hopens hended hdelivered
  | ended hopens hended hdelivered =>
      obtain ⟨hateof, hpending⟩ := fill_ended hended.1
      exact .ended hopens ⟨hateof, by rw [hpending]; exact hended.2⟩ hdelivered
  | idle hateof hpending hout =>
      obtain ⟨hateof', hpending'⟩ := fill_ended hateof
      exact .idle hateof' (by rw [hpending']; exact hpending) hout

/-! ## The result -/

theorem Runs.following (hstart : Unparsed start start)
    (hfilter : start.bsf.filterBadSamples = true)
    (hsafe : ∀ body, Opens fresh start body → StartSafe body.offset 0 (scan start.bsf body.bytes))
    (hrun : Runs fresh start newinput searched out stream) :
    Following fresh start searched out newinput stream := by
  induction hrun with
  | start => exact .unparsed hstart rfl
  | again keepreading search hrun hturn ih =>
      have hstep := @Following.turn fresh start _ _ _ _ keepreading search ih hrun hfilter hsafe
      rw [hturn] at hstep
      cases hstep with
      | again hfollowing => exact hfollowing
  | ret keepreading search hrun hturn hwild ih =>
      have hstep := @Following.turn fresh start _ _ _ _ keepreading search ih hrun hfilter hsafe
      rw [hturn] at hstep
      cases hstep with
      | ret hfollowing => exact hfollowing
      | wild => exact absurd rfl hwild
  | fill hrun ih => exact ih.fill

/-- Every run returns clean samples: outside of searches, samples of what follows the
input header that are not next to corrupt bytes, in their order, and without searches
all of the first ones. -/
def ReturnsClean (fresh : ℕ → Bool) (start : SampleInputStream) : Prop :=
  ∀ newinput searched out stream, Runs fresh start newinput searched out stream →
    out = [] ∨ ∃ body, Opens fresh start body ∧ out.Sublist (cleanSamples start.bsf body) ∧
      (searched = false → out <+: cleanSamples start.bsf body)

/-- **No sample next to corrupt bytes is returned in any run, provided that the
statistics of the first block are not misleading.** -/
theorem nextSample_returnsClean {expectHeader : Bool} {bsf : BadSampleFilter}
    {reads : List ChannelRead} (hfilter : bsf.filterBadSamples = true)
    (hreads : Continuing reads.tail)
    (hsafe : ∀ body, Opens fresh (ofChannel expectHeader bsf reads) body →
      StartSafe body.offset 0 (scan bsf body.bytes)) :
    ReturnsClean fresh (ofChannel expectHeader bsf reads) := by
  intro newinput searched out stream hrun
  have hresult : ∀ {body : Body} {expected : List Sample},
      Delivered (cleanSamples bsf body) searched out expected →
      out.Sublist (cleanSamples bsf body) ∧ (searched = false → out <+: cleanSamples bsf body) := by
    rintro body expected ⟨done, hdone, hsublist, hall⟩
    rw [← hdone]
    exact ⟨hsublist.trans (List.sublist_append_left _ _),
      fun hnot => by rw [hall hnot]; exact List.prefix_append _ _⟩
  cases hrun.following (unparsed_ofChannel hreads) hfilter hsafe with
  | unparsed _ hout => exact Or.inl hout
  | stands hopens _ hdelivered => exact Or.inr ⟨_, hopens, hresult hdelivered⟩
  | ended hopens _ hdelivered => exact Or.inr ⟨_, hopens, hresult hdelivered⟩
  | idle _ _ hout => exact Or.inl hout

/-- A call of `nextSample` is part of a run. -/
theorem Runs.call {turns : ℕ} {outcome : Outcome} {after : SampleInputStream}
    (hrun : Runs fresh start newinput searched out stream)
    (hcall : nextSample fresh keepreading search turns newinput stream = some (outcome, after))
    (hwild : outcome ≠ .wild) :
    Runs fresh start false (searched || search.isSome) (out ++ returned search outcome) after := by
  induction turns generalizing newinput searched stream with
  | zero => cases hcall
  | succ turns ih =>
      rw [nextSample] at hcall
      cases hturn : nextSampleTurn fresh keepreading search newinput stream with
      | ret outcome' after' =>
          rw [hturn] at hcall
          cases hcall
          exact hrun.ret keepreading search hturn hwild
      | again newinput' after' =>
          rw [hturn] at hcall
          have hrest := ih (hrun.again keepreading search hturn) hcall
          rwa [Bool.or_assoc, Bool.or_self] at hrest

/-- A filter with the defaults of its rules. -/
def filterOn : BadSampleFilter := { filterBadSamples := true }

/-- A sample whose header is rejected when one byte stands in front of it. -/
def eighthSample : Sample := ⟨0, .char, 8 * 2 ^ 16 + 1, [65]⟩

/-- Two samples in one read, and a corrupt third one. -/
def cleanReads : List ChannelRead :=
  [⟨eighthSample.encode ++ eighthSample.encode ++ List.replicate 16 0, true, by decide⟩]

theorem nextSample_returnsClean_two :
    Continuing cleanReads.tail ∧ ReturnsClean (fun _ => false) (ofChannel false filterOn cleanReads) := by
  have htail : Continuing cleanReads.tail := List.forall_mem_nil _
  refine ⟨htail, nextSample_returnsClean rfl htail fun body hopens => ?_⟩
  rw [hopens.2 rfl]
  refine Or.inl ?_
  rw [@scan_of_some _ _ .char (by decide) (by decide), scanData, if_neg (by decide)]
  rfl

/-- One byte in front of a sample. -/
def shiftedReads : List ChannelRead := [⟨0 :: eighthSample.encode, true, by decide⟩]

/-- The sample is returned though its header was reached by a shift. -/
theorem nextSample_returns_shifted :
    Continuing shiftedReads.tail ∧
      ¬ ReturnsClean (fun _ => false) (ofChannel false filterOn shiftedReads) := by
  refine ⟨List.forall_mem_nil _, fun hclean => ?_⟩
  have hfirst : (readSample (fun _ => false) 4 (ofChannel false filterOn shiftedReads)).map Prod.fst =
      some (.sample eighthSample) := by decide
  obtain ⟨⟨outcome, after⟩, hcall, houtcome⟩ := Option.map_eq_some_iff.mp hfirst
  cases houtcome
  have hrun := Runs.start.call hcall (by simp)
  rcases hclean _ _ _ _ hrun with hnil | ⟨body, hopens, hsublist, _⟩
  · cases hnil
  · rw [hopens.2 rfl] at hsublist
    have hscan : scan filterOn (bytesOf shiftedReads) = [.rejected, .accepted eighthSample] := by
      rw [scan_of_none (by decide) (by decide), @scan_of_some _ _ .char (by decide) (by decide),
        scanData, if_neg (by decide), scan_of_lt (by decide)]
      rfl
    have hnone : cleanSamples filterOn ⟨bytesOf shiftedReads, 0⟩ = [] := by
      rw [cleanSamples, hscan]
      rfl
    have hsub : [eighthSample].Sublist (cleanSamples filterOn ⟨bytesOf shiftedReads, 0⟩) := hsublist
    rw [hnone] at hsub
    cases hsub

end SampleInputStream

end Nidas.Dynld
