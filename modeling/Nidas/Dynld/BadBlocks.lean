import Nidas.Core.HeaderParsing
import Nidas.Dynld.BlockReading
import Nidas.Dynld.HeaderScan

/-!
# Bad blocks

With the bad sample filter on, a sample that has been read is held back until the
next header is accepted, and the first sample behind a bad block is skipped.  This
file follows the state that decides about this through one turn of `nextSample`.
`Stands` describes a stream between two turns by the samples that are still
expected of it: those that are clean in what is left of the input.

The statistics of a block say whether it is bad, and at the start of an input they
do not: the block is good and has no bytes, so the first rejected headers do not
start a bad block.  `StartSafe` leaves out the inputs where this matters.
-/

namespace Nidas.Dynld

open Core Lib

namespace SampleInputStream

variable {fresh : ℕ → Bool} {stream : SampleInputStream}

/-! ## Block statistics -/

/-- What the statistics of the block say before a header that starts at `place`, with
`items` from there on.  The last argument says whether the header has been reached by
a shift. -/
inductive BlockPhase (offset place : ℤ) (items : List Item) (block : BlockStats) (skip : Bool) :
    Bool → Prop where
  | opening (count : ℕ) (hoffset : 0 ≤ offset) (hplace : place = offset + count)
      (hcount : count < badStart offset) (hsafe : StartSafe offset count items)
      (hgood : block.good = true) (hstart : block.blockStart = 0)
      (hnbytes : block.nbytes = if count = 0 then 0 else place - 1) (hskip : skip = false) :
      BlockPhase offset place items block skip (decide (0 < count))
  | good (hgood : block.good = true) (hnbytes : 0 < block.nbytes) (hskip : skip = false) :
      BlockPhase offset place items block skip false
  | bad (hgood : block.good = false) (hnbytes : block.nbytes ≠ 0)
      (hstart : block.blockStart < place) : BlockPhase offset place items block skip (!skip)

variable {offset place : ℤ} {items rest : List Item} {block : BlockStats} {skip shifted : Bool}

/-- A rejected header starts a bad block or goes on with one, except at the start of
the input. -/
theorem BlockPhase.rejected (hphase : BlockPhase offset place (.rejected :: rest) block skip shifted) :
    BlockPhase offset (place + 1) rest
      (if block.good && block.nbytes ≠ 0 then block.startBadBlock place
      else block.endBadBlock none place) false true := by
  cases hphase with
  | opening count hoffset hplace hcount hsafe hgood hstart hnbytes hskip =>
      rw [hgood, Bool.true_and]
      by_cases hzero : block.nbytes = 0
      · rw [if_neg (by simpa using hzero)]
        refine .opening (count + 1) hoffset (by push_cast; omega) ?_ hsafe.rejected hgood hstart ?_
          rfl
        · -- no bytes have been counted, so this is the first header or the second one
          rw [hzero] at hnbytes
          unfold badStart at hcount ⊢
          split_ifs at hnbytes hcount ⊢ <;> omega
        · rw [if_neg (Nat.succ_ne_zero count)]
          simp [BlockStats.endBadBlock, hstart]
      · rw [if_pos (by simpa using hzero)]
        exact .bad rfl Int.one_ne_zero (by simp [BlockStats.startBadBlock])
  | good hgood hnbytes hskip =>
      rw [hgood, Bool.true_and, if_pos (by simp; omega)]
      exact .bad rfl Int.one_ne_zero (by simp [BlockStats.startBadBlock])
  | bad hgood hnbytes hstart =>
      rw [hgood, Bool.false_and, if_neg Bool.false_ne_true]
      refine .bad hgood ?_ ?_
      · simp only [BlockStats.endBadBlock]
        omega
      · simp only [BlockStats.endBadBlock]
        omega

/-- A header behind a bad block is skipped if it has been reached by a shift. -/
theorem BlockPhase.shifted_of_skip (hphase : BlockPhase offset place items block skip shifted)
    (hbad : block.bad = true) (hskip : skip = false) : shifted = true ∧ block.blockStart < place := by
  rw [BlockStats.bad, Bool.and_eq_true, Bool.not_eq_true'] at hbad
  cases hphase with
  | opening count _ _ _ _ hgood => rw [hgood] at hbad; cases hbad.1
  | good hgood => rw [hgood] at hbad; cases hbad.1
  | bad hgood hnbytes hstart => exact ⟨by rw [hskip]; rfl, hstart⟩

/-- The block that a header behind it goes on with has a count that is not
negative. -/
theorem BlockPhase.nbytes_nonneg (hphase : BlockPhase offset place items block skip shifted)
    (hgood : block.good = true) : 0 ≤ block.nbytes := by
  cases hphase with
  | opening count hoffset hplace _ _ _ _ hnbytes =>
      rw [hnbytes]
      split_ifs <;> omega
  | good _ hnbytes => exact Int.le_of_lt hnbytes
  | bad hbad => rw [hgood] at hbad; cases hbad

/-- A header that is not skipped has not been reached by a shift, or its sample is
not clean anyway. -/
theorem BlockPhase.clean_eq (hphase : BlockPhase offset place items block skip shifted)
    (hgood : block.bad = true → skip = true) (hne : ∀ rest, items ≠ .rejected :: rest) :
    clean shifted items = clean false items := by
  cases hphase with
  | opening count hoffset hplace hcount hsafe =>
      by_cases hzero : count = 0
      · rw [hzero]
        rfl
      · cases items with
        | nil => rfl
        | cons item rest =>
            cases item with
            | rejected => exact absurd rfl (hne rest)
            | cut => rfl
            | accepted samp =>
                have hnot := hsafe.not_followed (Nat.pos_of_ne_zero hzero) hcount
                rw [clean_accepted, clean_accepted, hnot, Bool.and_false, Bool.and_false]
  | good => rfl
  | bad hbad hnbytes =>
      rw [hgood (by rw [BlockStats.bad, hbad]; simpa using hnbytes)]
      rfl

/-! ## Between two turns -/

/-- The samples of a list are those of `scanData`, whatever has been stored. -/
theorem scanData_congr {bsf : BadSampleFilter} {samp samp' : InSample} {bytes : List UInt8}
    (htime : samp.timeTag = samp'.timeTag) (htype : samp.type = samp'.type)
    (hid : samp.id = samp'.id) (hlength : samp.dataByteLength = samp'.dataByteLength) :
    scanData bsf samp bytes = scanData bsf samp' bytes := by
  unfold scanData InSample.fill
  rw [htime, htype, hid, hlength]

/-- A skipped sample is not clean, whatever it holds. -/
theorem clean_scanData_congr {bsf : BadSampleFilter} {samp samp' : InSample} {bytes : List UInt8}
    (hlength : samp.dataByteLength = samp'.dataByteLength) :
    clean true (scanData bsf samp bytes) = clean true (scanData bsf samp' bytes) := by
  unfold scanData
  rw [hlength]
  split_ifs
  · rfl
  · rw [clean_accepted, clean_accepted]
    rfl

/-- A pending sample is to be returned if the next header is accepted or there is
none. -/
def pendingClean (pending : Option InSample) (items : List Item) : List Sample :=
  if followed items then (pending.map InSample.toSample).toList else []

@[simp] theorem pendingClean_none (items : List Item) : pendingClean none items = [] := by
  unfold pendingClean
  split_ifs <;> rfl

/-- The members that do not change within an input. -/
structure Within (stream : SampleInputStream) : Prop where
  parsed : stream.inputHeaderParsed = true
  ateof : stream.ateof = false
  filter : stream.bsf.filterBadSamples = true
  continuing : Continuing stream.io.reads

/-- The headers that are still to be met, with the one that is being read. -/
def headersAhead (stream : SampleInputStream) : List Item :=
  scan stream.bsf (stream.sheader ++ stream.io.unread)

/-- The stream is reading a header. -/
structure HeaderPhase (offset : ℤ) (stream : SampleInputStream) (expected : List Sample) : Prop
    extends Within stream where
  samp : stream.samp = none
  headerToRead_pos : 0 < stream.headerToRead
  count : stream.headerToRead + stream.sheader.length = sampleHeaderSize
  block : ∃ shifted, BlockPhase offset (stream.io.nbytesIn - stream.sheader.length)
    (headersAhead stream) stream.block stream.skipSample shifted ∧
    expected = pendingClean stream.sampPending (headersAhead stream) ++
      clean shifted (headersAhead stream)

/-- The stream is reading the data of `samp`. -/
structure DataPhase (stream : SampleInputStream) (samp : InSample) (expected : List Sample) : Prop
    extends Within stream where
  samp_eq : stream.samp = some samp
  headerToRead : stream.headerToRead = 0
  count : stream.dataToRead + samp.data.length = samp.dataByteLength
  length_lt : samp.dataByteLength < 2 ^ 64
  null : stream.dptrNull = true → samp.dataByteLength = 0
  block : (stream.block.good = true ∧ 0 < stream.block.nbytes ∧ stream.skipSample = false) ∨
    (stream.block.good = false ∧ stream.block.nbytes ≠ 0 ∧
      stream.block.blockStart < stream.io.nbytesIn ∧ stream.skipSample = true)
  expected_eq : expected =
    clean stream.skipSample (scanData stream.bsf samp (samp.data ++ stream.io.unread))

/-- Between two turns a stream reads a header, or data with nothing pending. -/
inductive Stands (offset : ℤ) (stream : SampleInputStream) (expected : List Sample) : Prop where
  | header (hphase : HeaderPhase offset stream expected) (hnew : stream.io.newInput = false)
  | data {samp : InSample} (hphase : DataPhase stream samp expected)
      (hpending : stream.sampPending = none) (hnew : stream.io.newInput = false)

/-- The end of the channel has been met; a pending sample is clean. -/
def EndedWith (stream : SampleInputStream) (expected : List Sample) : Prop :=
  stream.ateof = true ∧ (stream.sampPending.map InSample.toSample).toList <+: expected

/-- What a turn does to the samples that are expected: it returns the first of them,
or nothing.  Only a search leaves some out. -/
inductive TurnSpec (offset : ℤ) (searching : Bool) (expected : List Sample) : Turn → Prop where
  | again {after : SampleInputStream} {lost rest : List Sample} (hexpected : expected = lost ++ rest)
      (hlost : searching = false → lost = []) (hstands : Stands offset after rest) :
      TurnSpec offset searching expected (.again false after)
  | ended {after : SampleInputStream} (hended : EndedWith after expected) :
      TurnSpec offset searching expected (.again false after)
  | sample {after : SampleInputStream} {samp : Sample} {rest : List Sample}
      (hexpected : expected = samp :: rest) (hstands : Stands offset after rest) :
      TurnSpec offset searching expected (.ret (.sample samp) after)
  | null {after : SampleInputStream} (hstands : Stands offset after expected) :
      TurnSpec offset searching expected (.ret .null after)
  | wild {after : SampleInputStream} : TurnSpec offset searching expected (.ret .wild after)

theorem TurnSpec.go {searching : Bool} {expected : List Sample} {after : SampleInputStream}
    (hstands : Stands offset after expected) :
    TurnSpec offset searching expected (.again false after) :=
  .again (List.nil_append _).symm (fun _ => rfl) hstands

/-! ## The data of a sample -/

variable {expected : List Sample} {samp : InSample} {keepreading : Bool} {search : Option ℤ}

/-- The data are complete: the sample becomes pending, unless it is skipped or a
search goes on. -/
theorem DataPhase.complete {searching : Bool} (hphase : DataPhase stream samp expected)
    (hnew : stream.io.newInput = false)
    (hdone : stream.dataToRead = 0) :
    TurnSpec offset searching expected (sampleComplete searching stream) := by
  have hlength : samp.data.length = samp.dataByteLength := by
    have hcount := hphase.count
    omega
  have hitems : scanData stream.bsf samp (samp.data ++ stream.io.unread) =
      .accepted samp.toSample :: scan stream.bsf stream.io.unread := by
    have hfill : samp.fill (samp.data ++ stream.io.unread) = samp.toSample := by
      rw [InSample.fill, List.take_left' hlength]
      rfl
    rw [scanData, if_neg (by rw [List.length_append]; omega), hfill, List.drop_left' hlength]
  have hexpected := hphase.expected_eq
  rw [hitems, clean_accepted] at hexpected
  -- the next state, whatever is pending in it
  have hstands : ∀ pending : Option InSample,
      Stands offset
        { stream with samp := none, headerToRead := sampleHeaderSize, sheader := [],
                      sampPending := pending }
        (pendingClean pending (scan stream.bsf stream.io.unread) ++
          clean false (scan stream.bsf stream.io.unread)) := by
    intro pending
    refine .header ⟨⟨hphase.parsed, hphase.ateof, hphase.filter, hphase.continuing⟩, rfl,
      Nat.succ_pos 15, rfl, false, ?_, rfl⟩ hnew
    rcases hphase.block with ⟨hgood, hnbytes, hskip⟩ | ⟨hgood, hnbytes, hstart, hskip⟩
    · exact .good hgood hnbytes hskip
    · have hbad := @BlockPhase.bad offset (stream.io.nbytesIn - ([] : List UInt8).length)
        (scan stream.bsf stream.io.unread) stream.block stream.skipSample hgood hnbytes
        (by simpa using hstart)
      rw [hskip] at hbad
      rw [hskip]
      exact hbad
  have hturn : sampleComplete searching stream =
      .again false
        { stream with
          samp := none
          headerToRead := sampleHeaderSize
          sheader := []
          sampPending := if stream.skipSample || searching then none else some samp } := by
    unfold SampleInputStream.sampleComplete
    dsimp only
    rw [if_pos hphase.filter, hphase.samp_eq]
  rw [hturn]
  cases hskip : stream.skipSample with
  | true =>
      rw [hskip] at hexpected hstands
      have hafter := hstands none
      rw [pendingClean_none] at hafter
      rw [hexpected]
      exact .go hafter
  | false =>
      rw [hskip] at hexpected hstands
      cases searching with
      | true =>
          have hafter := hstands none
          rw [pendingClean_none] at hafter
          exact .again hexpected (fun hfalse => by cases hfalse) hafter
      | false =>
          rw [hexpected]
          exact .go (hstands (some samp))

/-- More of the data have been stored. -/
theorem DataPhase.stored {stored : List UInt8} {left : ℕ} {io : IOStream}
    (hphase : DataPhase stream samp expected)
    (htaken : Taken stream.io stream.dataToRead stored left io) :
    DataPhase { stream with io := io, dataToRead := left,
                            samp := some { samp with data := samp.data ++ stored } }
      { samp with data := samp.data ++ stored } expected := by
  refine ⟨⟨hphase.parsed, hphase.ateof, hphase.filter, htaken.continuing⟩, rfl,
    hphase.headerToRead, ?_, hphase.length_lt, hphase.null, ?_, ?_⟩
  · have hcount := hphase.count
    have htotal := htaken.count
    simp only [List.length_append]
    omega
  · rcases hphase.block with hgood | ⟨hgood, hnbytes, hstart, hskip⟩
    · exact Or.inl hgood
    · refine Or.inr ⟨hgood, hnbytes, ?_, hskip⟩
      have hcount := htaken.nbytesIn
      dsimp only
      omega
  · rw [hphase.expected_eq]
    dsimp only
    rw [List.append_assoc, htaken.unread]
    exact congrArg (clean stream.skipSample) (scanData_congr rfl rfl rfl rfl)

/-- Reading the data, with nothing pending. -/
theorem DataPhase.turn (hphase : DataPhase stream samp expected)
    (hpending : stream.sampPending = none) (hnew : stream.io.newInput = false) :
    TurnSpec offset search.isSome expected (readData keepreading search stream) := by
  unfold readData
  rw [hpending, hphase.samp_eq]
  dsimp only
  by_cases hfound :
      (!stream.skipSample && search.any (fun time => decide (samp.timeTag ≥ time))) = true
  · rw [if_pos hfound]
    exact .null (.data hphase hpending hnew)
  rw [if_neg hfound]
  have hlt : stream.dataToRead < 2 ^ 64 := by
    have hcount := hphase.count
    have hlength := hphase.length_lt
    omega
  have hnull : (!stream.dptrNull) = false → stream.dataToRead = 0 := by
    intro hptr
    have hzero := hphase.null (by simpa using hptr)
    have hcount := hphase.count
    omega
  have hblock := @readBlock_within stream keepreading (!stream.dptrNull) stream.dataToRead hlt hnull
    hphase.continuing hnew
  generalize readBlock keepreading (!stream.dptrNull) stream.dataToRead stream = result at hblock ⊢
  cases hblock with
  | wild => exact .wild
  | eof heof hnewinput _ =>
      rw [dataRead]
      dsimp only
      rw [heof, hnewinput, Bool.or_false, if_pos rfl]
      refine .ended ⟨rfl, ?_⟩
      dsimp only
      rw [hpending]
      exact List.nil_prefix
  | @taken stored left rr io heof hnewinput htaken hleft =>
      have hafter := hphase.stored htaken
      rw [dataRead]
      dsimp only
      rw [heof, hnewinput, Bool.or_self, if_neg Bool.false_ne_true, hphase.samp_eq, Option.map_some]
      by_cases hmore : left > 0
      · rw [if_pos hmore]
        exact .null (.data hafter hpending htaken.newInput)
      · rw [if_neg hmore]
        exact hafter.complete htaken.newInput (Nat.eq_zero_of_not_pos hmore)

/-! ## A header -/

/-- A header has been read completely. -/
structure HeaderThere (offset : ℤ) (stream : SampleInputStream) (shifted : Bool)
    (expected : List Sample) : Prop extends Within stream where
  headerToRead : stream.headerToRead = 0
  length : stream.sheader.length = sampleHeaderSize
  newInput : stream.io.newInput = false
  block : BlockPhase offset (stream.io.nbytesIn - sampleHeaderSize) (headersAhead stream)
    stream.block stream.skipSample shifted
  expected_eq : expected = pendingClean stream.sampPending (headersAhead stream) ++
    clean shifted (headersAhead stream)

theorem HeaderThere.le_length (hthere : HeaderThere offset stream shifted expected) :
    sampleHeaderSize ≤ (stream.sheader ++ stream.io.unread).length := by
  rw [List.length_append, hthere.length]
  omega

theorem HeaderThere.take (hthere : HeaderThere offset stream shifted expected) :
    (stream.sheader ++ stream.io.unread).take sampleHeaderSize = stream.sheader :=
  List.take_left' hthere.length

/-- A header that is rejected is shifted by one byte. -/
theorem HeaderThere.rejected (hthere : HeaderThere offset stream shifted expected)
    (hnone : stream.bsf.accept (SampleHeader.ofBytes stream.sheader) = none) :
    TurnSpec offset search.isSome expected (headerComplete fresh keepreading search stream) := by
  have hitems : headersAhead stream =
      .rejected :: scan stream.bsf (stream.sheader.drop 1 ++ stream.io.unread) := by
    rw [headersAhead, scan_of_none hthere.le_length (by rw [hthere.take]; exact hnone),
      List.drop_append_of_le_length (by rw [hthere.length]; decide)]
  have hphase := hthere.block
  rw [hitems] at hphase
  have hexpected := hthere.expected_eq
  rw [hitems, clean_rejected] at hexpected
  rw [headerComplete, sampleFromHeader_of_none hnone]
  dsimp only
  refine .go (.header ⟨⟨hthere.parsed, hthere.ateof, hthere.filter, hthere.continuing⟩, rfl,
    Nat.one_pos, ?_, true, ?_, ?_⟩ hthere.newInput)
  · rw [List.length_drop, hthere.length]
    rfl
  · have hplace : stream.io.nbytesIn - ((stream.sheader.drop 1).length : ℤ) =
        stream.io.nbytesIn - sampleHeaderSize + 1 := by
      rw [List.length_drop, hthere.length, sampleHeaderSize]
      omega
    dsimp only
    rw [hplace]
    exact hphase.rejected
  · dsimp only
    rw [pendingClean_none, hexpected]
    rfl

/-- A header that is accepted is followed by its data. -/
theorem HeaderThere.ahead (hthere : HeaderThere offset stream shifted expected) {type : SampleType}
    (hsome : stream.bsf.accept (SampleHeader.ofBytes stream.sheader) = some type) :
    headersAhead stream =
      scanData stream.bsf (.ofHeader (SampleHeader.ofBytes stream.sheader) type)
        stream.io.unread := by
  rw [headersAhead, scan_of_some hthere.le_length (by rw [hthere.take]; exact hsome), hthere.take,
    List.drop_left' hthere.length]

theorem scanData_ne_rejected {bsf : BadSampleFilter} {samp : InSample} {bytes : List UInt8} :
    ∀ rest, scanData bsf samp bytes ≠ .rejected :: rest := by
  intro rest
  unfold scanData
  split_ifs <;> simp

theorem followed_scanData {bsf : BadSampleFilter} {samp : InSample} {bytes : List UInt8} :
    followed (scanData bsf samp bytes) = true := by
  unfold scanData
  split_ifs <;> rfl

/-- The state in which the data of an accepted header are read. -/
theorem HeaderThere.accepted (hthere : HeaderThere offset stream shifted expected)
    {type : SampleType}
    (hsome : stream.bsf.accept (SampleHeader.ofBytes stream.sheader) = some type) :
    ∃ after samp, sampleFromHeader fresh stream = after ∧ after.samp = some samp ∧
      after.sampPending = stream.sampPending ∧ after.io = stream.io ∧
      DataPhase { after with dataToRead := samp.dataByteLength, sampPending := none } samp
        (clean shifted (headersAhead stream)) := by
  have hlt := (SampleHeader.ofBytes_dataByteLength_lt stream.sheader).trans (by decide : 2 ^ 32 < 2 ^ 64)
  by_cases hskip : stream.block.bad = true ∧ stream.skipSample = false
  · obtain ⟨hbad, hskip⟩ := hskip
    obtain ⟨hshifted, hstart⟩ := hthere.block.shifted_of_skip hbad hskip
    rw [BlockStats.bad, Bool.and_eq_true, Bool.not_eq_true'] at hbad
    refine ⟨_, _, sampleFromHeader_of_skip hsome (by rw [BlockStats.bad]; simpa using hbad) hskip,
      rfl, rfl, rfl, ⟨hthere.parsed, hthere.ateof, hthere.filter, hthere.continuing⟩, rfl,
      hthere.headerToRead, rfl, hlt, ?_, Or.inr ⟨hbad.1, by simpa using hbad.2, ?_, rfl⟩, ?_⟩
    · intro hnull
      rw [Bool.and_eq_true, decide_eq_true_eq] at hnull
      exact hnull.1
    · dsimp only [sampleHeaderSize] at hstart ⊢
      omega
    · rw [hshifted, hthere.ahead hsome]
      exact clean_scanData_congr rfl
  · have hgood : stream.block.bad = true → stream.skipSample = true := by
      intro hbad
      by_contra hfalse
      exact hskip ⟨hbad, by simpa using hfalse⟩
    refine ⟨_, _, sampleFromHeader_of_some hsome hgood, rfl, rfl, rfl,
      ⟨hthere.parsed, hthere.ateof, hthere.filter, hthere.continuing⟩, rfl, hthere.headerToRead, rfl,
      hlt, ?_, Or.inl ⟨BlockStats.addGoodSample_good, BlockStats.addGoodSample_nbytes ?_, rfl⟩, ?_⟩
    · intro hnull
      rw [Bool.and_eq_true, decide_eq_true_eq] at hnull
      exact hnull.1
    · split_ifs with hbad
      · intro hgood'
        rw [BlockStats.bad, Bool.and_eq_true, Bool.not_eq_true'] at hbad
        rw [BlockStats.endBadBlock_good, hbad.1] at hgood'
        cases hgood'
      · exact hthere.block.nbytes_nonneg
    · rw [hthere.block.clean_eq hgood (by rw [hthere.ahead hsome]; exact scanData_ne_rejected),
        hthere.ahead hsome]
      rfl

theorem headerComplete_of_samp {after : SampleInputStream}
    (hafter : sampleFromHeader fresh stream = after) (hsamp : after.samp = some samp) :
    headerComplete fresh keepreading search stream =
      readData keepreading search { after with dataToRead := samp.dataByteLength } := by
  rw [headerComplete, hafter]
  split
  · next hnone =>
      rw [hsamp] at hnone
      cases hnone
  · next found hfound =>
      rw [hsamp] at hfound
      cases hfound
      rfl

theorem readData_of_pending {held : InSample} (hpending : stream.sampPending = some held) :
    readData keepreading search stream =
      .ret (.sample held.toSample) { stream with sampPending := none } := by
  unfold readData
  split
  · next found hfound =>
      rw [hpending] at hfound
      cases hfound
      rfl
  · next hnone =>
      rw [hpending] at hnone
      cases hnone

/-- A complete header: the pending sample is returned, or the data are read. -/
theorem HeaderThere.turn (hthere : HeaderThere offset stream shifted expected) :
    TurnSpec offset search.isSome expected (headerComplete fresh keepreading search stream) := by
  cases haccept : stream.bsf.accept (SampleHeader.ofBytes stream.sheader) with
  | none => exact hthere.rejected haccept
  | some type =>
      obtain ⟨after, samp, hafter, hsamp, hpending, hio, hphase⟩ :=
        @HeaderThere.accepted fresh _ _ _ _ hthere type haccept
      have hexpected := hthere.expected_eq
      have hnew : after.io.newInput = false := by rw [hio]; exact hthere.newInput
      have hfollowed : followed (headersAhead stream) = true := by
        rw [hthere.ahead haccept]
        exact followed_scanData
      rw [pendingClean, if_pos hfollowed] at hexpected
      rw [headerComplete_of_samp hafter hsamp]
      cases hold : stream.sampPending with
      | some held =>
          rw [hold] at hexpected hpending
          rw [@readData_of_pending { after with dataToRead := samp.dataByteLength } keepreading search
            held hpending]
          exact .sample hexpected (.data hphase rfl hnew)
      | none =>
          rw [hold] at hexpected hpending
          have hsame : ({ after with dataToRead := samp.dataByteLength, sampPending := none } :
              SampleInputStream) = { after with dataToRead := samp.dataByteLength } := by
            rw [← hpending]
          rw [hsame] at hphase
          rw [hexpected]
          exact @DataPhase.turn _ offset _ samp keepreading search hphase hpending hnew

/-- **One turn while a header is read.** -/
theorem HeaderPhase.turn (hphase : HeaderPhase offset stream expected)
    (hblock : BlockRead keepreading true stream.headerToRead stream
      (readBlock keepreading true stream.headerToRead stream)) :
    TurnSpec offset search.isSome expected (readHeader fresh keepreading search stream) := by
  obtain ⟨shifted, hstatistics, hexpected⟩ := hphase.block
  have hcount := hphase.count
  rw [readHeader, if_pos hphase.headerToRead_pos]
  generalize readBlock keepreading true stream.headerToRead stream = result at hblock ⊢
  cases hblock with
  | wild hptr => cases hptr
  | eof heof hnewinput hshort =>
      rw [headerRead]
      dsimp only
      rw [heof, hnewinput, Bool.or_false, if_pos rfl]
      have hnone : headersAhead stream = [] := by
        apply scan_of_lt
        rw [List.length_append]
        have hlt := hshort rfl
        omega
      rw [hnone, clean_nil, List.append_nil] at hexpected
      rw [hexpected]
      exact .ended ⟨rfl, List.prefix_refl _⟩
  | @taken stored left rr io heof hnewinput htaken hleft =>
      have htotal := htaken.count
      have hin := htaken.nbytesIn
      -- what is ahead has not changed
      have hahead : scan stream.bsf ((stream.sheader ++ stored) ++ io.unread) =
          headersAhead stream := by
        rw [List.append_assoc, htaken.unread]
        rfl
      have hplace : io.nbytesIn - ((stream.sheader ++ stored).length : ℤ) =
          stream.io.nbytesIn - stream.sheader.length := by
        rw [List.length_append, hin]
        push_cast
        omega
      rw [headerRead]
      dsimp only
      rw [heof, hnewinput, Bool.or_self, if_neg Bool.false_ne_true]
      by_cases hmore : left > 0
      · rw [if_pos hmore]
        refine .null (.header ⟨⟨hphase.parsed, hphase.ateof, hphase.filter, htaken.continuing⟩,
          hphase.samp, hmore, ?_, shifted, ?_, ?_⟩ htaken.newInput)
        · simp only [List.length_append]
          omega
        · dsimp only [headersAhead]
          rw [hahead, hplace]
          exact hstatistics
        · dsimp only [headersAhead]
          rw [hahead]
          exact hexpected
      · rw [if_neg hmore]
        have hlength : (stream.sheader ++ stored).length = sampleHeaderSize := by
          rw [List.length_append]
          omega
        apply @HeaderThere.turn fresh _ _ shifted
        refine ⟨⟨hphase.parsed, hphase.ateof, hphase.filter, htaken.continuing⟩,
          Nat.eq_zero_of_not_pos hmore, hlength, htaken.newInput, ?_, ?_⟩
        · rw [hlength] at hplace
          dsimp only [headersAhead]
          rw [hahead, hplace]
          exact hstatistics
        · dsimp only [headersAhead]
          rw [hahead]
          exact hexpected

end SampleInputStream

end Nidas.Dynld
