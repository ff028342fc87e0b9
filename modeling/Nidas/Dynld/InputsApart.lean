import Nidas.Dynld.HeaderCount
import Nidas.Dynld.InputSwitch

/-!
# When inputs are kept apart

`AtInput.run` says that inputs are kept apart if they are `Switchable`.  Here is the
converse.  If the first read of an input is too short, its flag is passed and one
header less can be parsed, whatever is made of the bytes.  If a sample without data
is lost, one sample less is returned.  So the right number of headers and of samples
is enough for `Switchable`.
-/

namespace Nidas.Dynld

open Core Lib

namespace SampleInputStream

variable {fresh : ℕ → Bool} {stream : SampleInputStream} {samp : Sample}
  {later pre : List ChannelRead} {cut : ℕ} {samples rest : List Sample}

theorem flags_of_continuing (hcontinuing : Continuing pre) (post : List ChannelRead) :
    flags (pre ++ post) = flags post := by
  induction pre with
  | nil => rfl
  | cons read pre ih =>
      obtain ⟨hnew, hrest⟩ := hcontinuing.of_cons
      rw [List.cons_append, flags_cons, ih hrest, hnew]
      rfl

theorem flags_reads_append (input : Input) (later : List ChannelRead) :
    flags (input.reads ++ later) = flags later + 1 := by
  rw [Input.reads, List.cons_append, flags_cons, flags_of_continuing input.continuing,
    input.newInput]
  rfl

theorem readsOf_cons (input : Input) (inputs : List Input) :
    readsOf (input :: inputs) = input.reads ++ readsOf inputs := List.flatMap_cons

theorem samplesOf_cons (input : Input) (inputs : List Input) :
    samplesOf (input :: inputs) = input.complete ++ samplesOf inputs := List.flatMap_cons

theorem flags_readsOf (inputs : List Input) : flags (readsOf inputs) = inputs.length := by
  induction inputs with
  | nil => rfl
  | cons input inputs ih => rw [readsOf_cons, flags_reads_append, ih, List.length_cons]

/-! ## A flag that is not seen -/

/-- At the end of an input a first read that is too short is passed. -/
theorem InInput.turn_passed {newinput : Bool} {next : Input}
    (hin : InInput (next.reads ++ later) cut samples pre stream) (hwhole : whole cut samples = [])
    (hneeded : next.first.bytes.length < needed cut samples) :
    headerBudget (nextSampleTurn fresh true none newinput stream).leaves <
      stream.headersParsed + flags (next.reads ++ later) := by
  have hat := hin.atHeader
  have hne := next.nonempty next.first (List.mem_cons_self ..)
  have hlength := congrArg List.length hin.bytes
  rw [List.length_append] at hlength
  rcases leftover hwhole with ⟨hlt, hcount, _⟩ | ⟨samp, rest, more, rfl, hbytes, hlt, hcount, _⟩
  · -- while a header is read
    have hblock := @headerBudget_readBlock_lt stream sampleHeaderSize pre (next.rest ++ later)
      next.first (by decide) hat.parsed hin.reads hin.continuing next.newInput hne (by omega)
    rw [nextSampleTurn_atHeader hat, readHeader, hat.headerToRead, if_pos (by decide)]
    exact Nat.lt_of_le_of_lt (headerBudget_headerRead_le _ _) hblock
  · -- while the data of a sample are read
    have hencodable := hin.encodable samp (List.mem_cons_self ..)
    obtain ⟨io, block, left, _, _, hleft, hrest, hmore, hturn⟩ := @nextSampleTurn_of_header fresh _
      _ newinput _ _ _ hat hencodable hin.reads hin.continuing (hin.bytes.trans hbytes)
    have hsplit := congrArg List.length hmore
    rw [List.length_append] at hsplit
    have hptr : (!(decide (samp.data.length = 0) && fresh stream.poolCalls)) = true := by
      have hpos : ¬ samp.data.length = 0 := by omega
      simp [hpos]
    have hblock := @headerBudget_readBlock_lt (withHeader fresh samp io block stream)
      samp.data.length left (next.rest ++ later) next.first
      (hencodable.length_lt.trans (by decide)) hat.parsed hleft hrest next.newInput hne
      (by dsimp only [withHeader]; omega)
    rw [hturn, hptr, headerBudget_dataRead]
    exact hblock

/-! ## A sample that is lost -/

/-- A flagged read while the buffer is filled for a sample without data. -/
theorem readBlock_null_of_newinput {first : ChannelRead} {post : List ChannelRead}
    (hgood : stream.block.good = true) (hbytes : stream.io.bytes = [])
    (hreads : stream.io.reads = first :: post) (hnew : first.newInput = true) :
    ∃ left rr after, readBlock true false 0 stream = .block [] left rr after ∧
      rr.eof = false ∧ rr.newinput = true ∧ Switched first post stream after := by
  have hread := read_of_nil hbytes hreads
  have hback : (stream.io.load first post).backup = ⟨post, [], first.bytes, true, 0⟩ := by
    simp [IOStream.backup, IOStream.load, hnew]
  refine ⟨sizeSub 0 first.bytes.length,
    { len := first.bytes.length, newinput := true },
    ({ stream with io := stream.io.load first post } : SampleInputStream).handleNewInput, ?_, rfl,
    rfl, ?_⟩
  · have hflag : (stream.io.load first post).newInput = true := hnew
    simp [readBlock, readBlockLoop, read, hread, hflag]
  · unfold handleNewInput closeBlocks
    dsimp only
    split_ifs
    · exact ⟨{}, 0, 0, rfl, by rw [hback]⟩
    · exact ⟨stream.block, stream.badSamples, stream.goodSamples, hgood, by rw [hback]⟩

/-- How a sample without data is lost: the program is lost as well, or the channel
has ended, or the next input has come. -/
inductive Lost (fresh : ℕ → Bool) (inputs : List Input) (stream : SampleInputStream) : Prop where
  | wild {after : SampleInputStream}
      (hcall : readSample fresh 1 stream = some (.wild, after))
  | eof {after : SampleInputStream}
      (hcall : readSample fresh 2 stream = some (.eof, after))
  | switch {next : Input} {others : List Input} {after : SampleInputStream}
      (hinputs : inputs = next :: others)
      (hturn : nextSampleTurn fresh true none false stream = .again true after)
      (hnext : AtInput next (readsOf others) after)
      (hheaders : after.headersParsed = stream.headersParsed)

theorem InInput.lost {inputs : List Input} (hin : InInput (readsOf inputs) cut (samp :: rest) pre stream)
    (hcut : samp.encode.length ≤ cut) (hempty : samp.data = [])
    (hfresh : fresh stream.poolCalls = true)
    (hharm : ¬ FillHarmless (Lib.advance ChannelRead.bytes sampleHeaderSize stream.io.bytes pre)) :
    Lost fresh inputs stream := by
  have hat := hin.atHeader
  have hahead := hin.ahead hcut
  obtain ⟨io, block, hgood, hadvance, hturn⟩ := @nextSampleTurn_of_fill fresh _ _ false _ _ _ hat
    (hin.encodable samp (List.mem_cons_self ..)) hahead hempty hfresh
  have hlength : sampleHeaderSize + samp.data.length = sampleHeaderSize := by
    rw [hempty, List.length_nil, Nat.add_zero]
  obtain ⟨hafter, hbytes⟩ := @InInput.advance _ _ _ pre cut rest hin hcut io block true hgood
    (by rw [hlength]; exact hadvance)
  rw [hlength] at hafter hbytes
  generalize Lib.advance ChannelRead.bytes sampleHeaderSize stream.io.bytes pre = position
    at hafter hbytes hharm
  have hnil : io.bytes = [] := by
    by_contra hne
    exact hharm (Or.inl (by rwa [← hbytes]))
  have hreads : io.reads = position.2 ++ readsOf inputs := hafter.reads
  cases hleft : position.2 with
  | cons first left =>
      have hmem : first ∈ position.2 := by
        rw [hleft]
        exact List.mem_cons_self ..
      rw [hleft] at hreads
      rw [@readBlock_null_wild (withHeader fresh samp io block stream) first _ hnil hreads
        (hafter.nonempty first hmem) (hafter.continuing first hmem)] at hturn
      exact .wild (readSample_of_ret hturn)
  | nil =>
      rw [hleft, List.nil_append] at hreads
      cases inputs with
      | nil =>
          rw [@readBlock_null_of_eof (withHeader fresh samp io block stream) hnil hreads,
            dataRead] at hturn
          refine .eof (readSample_of_ended hturn ⟨rfl, hat.sampPending, rfl, ?_⟩)
          intro insamp hsamp
          cases hsamp
          simp [started, hempty]
      | cons next others =>
          obtain ⟨left, rr, after, hread, heof, hnew, block', bad, good, hgood', hswitched⟩ :=
            @readBlock_null_of_newinput (withHeader fresh samp io block stream) next.first
              (next.rest ++ readsOf others) hgood hnil (by rw [← List.cons_append]; exact hreads)
              next.newInput
          rw [hread, dataRead] at hturn
          dsimp only at hturn
          rw [heof, hnew, Bool.false_or, if_pos rfl] at hturn
          refine .switch rfl hturn ?_ ?_
          · rw [hswitched]
            exact ⟨hin.expect, rfl, hin.ready, hat.sampPending, hat.ateof, hat.filter, hgood',
              next.read_first _⟩
          · rw [hswitched]
            rfl

/-! ## All inputs -/

/-- What follows from a run that has parsed all headers, with `count` samples. -/
def Tells (fresh : ℕ → Bool) (inputs : List Input) (cut : ℕ) (samples : List Sample)
    (pre : List ChannelRead) (stream : SampleInputStream) (count : ℕ) : Prop :=
  count ≤ (whole cut samples ++ samplesOf inputs).length ∧
    (count = (whole cut samples ++ samplesOf inputs).length →
      ZeroLengthSafe fresh stream.poolCalls stream.io.bytes pre (whole cut samples) ∧
        (∀ next ∈ inputs.head?, needed cut samples ≤ next.first.bytes.length) ∧
        Switchable fresh (stream.poolCalls + accepted cut samples) inputs)

/-- The same at the start of an input. -/
theorem AtInput.tells {input : Input} {inputs : List Input} {returned : List Sample}
    {last : SampleInputStream} (hat : AtInput input (readsOf inputs) stream)
    (hreads : Reads fresh stream returned .eof last)
    (hheaders : last.headersParsed = stream.headersParsed + (input :: inputs).length)
    (htells : ∀ after, InInput (readsOf inputs) input.cut input.samples input.behindHeader.2 after →
      Reads fresh after returned .eof last →
      last.headersParsed = after.headersParsed + inputs.length →
      Tells fresh inputs input.cut input.samples input.behindHeader.2 after returned.length) :
    returned.length ≤ (samplesOf (input :: inputs)).length ∧
      (returned.length = (samplesOf (input :: inputs)).length →
        Switchable fresh stream.poolCalls (input :: inputs)) := by
  obtain ⟨after, hin, hbytes, hcalls, hparsed, hturn⟩ := @AtInput.inInput fresh _ _ _ false hat
  obtain ⟨hle, hsafe⟩ := htells after hin (hreads.congr hturn)
    (by rw [hheaders, hparsed, List.length_cons]; omega)
  rw [hcalls, hbytes] at hsafe
  rw [samplesOf_cons]
  exact ⟨hle, hsafe⟩

/-- The end of an input. -/
theorem InInput.tells_end {inputs : List Input} {returned : List Sample}
    {last : SampleInputStream} (hin : InInput (readsOf inputs) cut samples pre stream)
    (hwhole : whole cut samples = []) (hreads : Reads fresh stream returned .eof last)
    (hheaders : last.headersParsed = stream.headersParsed + inputs.length)
    (htells : ∀ next others after, inputs = next :: others → AtInput next (readsOf others) after →
      Reads fresh after returned .eof last →
      last.headersParsed = after.headersParsed + inputs.length →
      returned.length ≤ (samplesOf inputs).length ∧
        (returned.length = (samplesOf inputs).length → Switchable fresh after.poolCalls inputs)) :
    Tells fresh inputs cut samples pre stream returned.length := by
  rw [Tells, hwhole, List.nil_append]
  cases inputs with
  | nil =>
      obtain ⟨after, hturn, hended, _⟩ := @InInput.turn_eof fresh _ _ _ _ false hin hwhole
      rw [(hreads.of_stop (readSample_of_ended hturn hended) (by simp)).1]
      exact ⟨Nat.le_refl _, fun _ => ⟨zeroLengthSafe_nil, by simp, trivial⟩⟩
  | cons next others =>
      rcases Nat.lt_or_ge next.first.bytes.length (needed cut samples) with hlt | hge
      · -- one header less can be parsed
        have hpassed := @InInput.turn_passed fresh _ (readsOf others) _ _ _ false next hin hwhole hlt
        have hle := hreads.headersParsed_le
        rw [← readsOf_cons, flags_readsOf] at hpassed
        omega
      · obtain ⟨after, hturn, hnext, hcalls, hparsed⟩ := @InInput.turn_switch fresh _ _ _ _ _ false
          next hin hwhole hge
        obtain ⟨hle, hsafe⟩ := htells next others after rfl hnext
          ((reads_again_iff hturn hnext.sampPending).mp hreads) (by rw [hheaders, hparsed])
        rw [hcalls] at hsafe
        refine ⟨hle, fun heq => ⟨zeroLengthSafe_nil, ?_, hsafe heq⟩⟩
        intro other hother
        cases hother
        exact hge

/-- One sample after the other, to the end of the input. -/
theorem InInput.tells {inputs : List Input} {last : SampleInputStream}
    (htells : ∀ next others after returned, inputs = next :: others →
      AtInput next (readsOf others) after → Reads fresh after returned .eof last →
      last.headersParsed = after.headersParsed + inputs.length →
      returned.length ≤ (samplesOf inputs).length ∧
        (returned.length = (samplesOf inputs).length → Switchable fresh after.poolCalls inputs)) :
    ∀ {samples : List Sample} {cut : ℕ} {pre : List ChannelRead} {stream : SampleInputStream}
      {returned : List Sample}, InInput (readsOf inputs) cut samples pre stream →
      Reads fresh stream returned .eof last →
      last.headersParsed = stream.headersParsed + inputs.length →
      Tells fresh inputs cut samples pre stream returned.length := by
  intro samples
  induction samples with
  | nil =>
      intro cut pre stream returned hin hreads hheaders
      exact hin.tells_end rfl hreads hheaders fun next others after => htells next others after _
  | cons samp rest ih =>
      intro cut pre stream returned hin hreads hheaders
      by_cases hcut : samp.encode.length ≤ cut
      · have hwhole : whole cut (samp :: rest) = samp :: whole (cut - samp.encode.length) rest :=
          if_pos hcut
        have hneeded : needed cut (samp :: rest) = needed (cut - samp.encode.length) rest :=
          if_pos hcut
        have haccepted : accepted cut (samp :: rest) =
            accepted (cut - samp.encode.length) rest + 1 := if_pos hcut
        rw [Tells, hwhole, hneeded, haccepted, List.cons_append, List.length_cons]
        by_cases hharmless : samp.data = [] → fresh stream.poolCalls = true →
            FillHarmless (Lib.advance ChannelRead.bytes sampleHeaderSize stream.io.bytes pre)
        · obtain ⟨after, hturn, hafter, hbytes, hcalls, hparsed⟩ := hin.turn hcut hharmless
          obtain ⟨left, rfl, hrest⟩ := hreads.of_sample (readSample_of_ret hturn)
          obtain ⟨hle, hsafe⟩ := ih hafter hrest (by rw [hheaders, hparsed])
          refine ⟨Nat.succ_le_succ hle, fun heq => ?_⟩
          obtain ⟨hzero, hfirst, hswitchable⟩ := hsafe (Nat.succ.inj heq)
          rw [hcalls, hbytes] at hzero
          refine ⟨zeroLengthSafe_cons.mpr ⟨hharmless, hzero⟩, hfirst, ?_⟩
          rwa [hcalls, Nat.add_right_comm, Nat.add_assoc] at hswitchable
        · -- a sample is lost, and what comes behind it cannot make up for it
          obtain ⟨hempty, hmore⟩ := Classical.not_imp.mp hharmless
          obtain ⟨hfresh, hharm⟩ := Classical.not_imp.mp hmore
          have hfew : returned.length ≤ (samplesOf inputs).length := by
            cases hin.lost hcut hempty hfresh hharm with
            | wild hcall => exact absurd (hreads.of_stop hcall (by simp)).2 (by simp)
            | eof hcall =>
                rw [(hreads.of_stop hcall (by simp)).1]
                exact Nat.zero_le _
            | switch hinputs hturn hnext hparsed =>
                exact (htells _ _ _ _ hinputs hnext
                  ((reads_again_iff hturn hnext.sampPending).mp hreads)
                  (by rw [hheaders, hparsed])).1
          rw [List.length_append]
          exact ⟨by omega, fun heq => by omega⟩
      · exact hin.tells_end (if_neg hcut) hreads hheaders
          fun next others after => htells next others after _

/-- **Only inputs that can be told apart are all parsed and read.** -/
theorem AtInput.switchable_of_reads :
    ∀ {inputs : List Input} {input : Input} {stream last : SampleInputStream}
      {returned : List Sample}, AtInput input (readsOf inputs) stream →
      Reads fresh stream returned .eof last →
      last.headersParsed = stream.headersParsed + (input :: inputs).length →
      returned.length ≤ (samplesOf (input :: inputs)).length ∧
        (returned.length = (samplesOf (input :: inputs)).length →
          Switchable fresh stream.poolCalls (input :: inputs)) := by
  intro inputs
  induction inputs with
  | nil =>
      intro input stream last returned hat hreads hheaders
      refine hat.tells hreads hheaders fun after hin hreads' hheaders' => ?_
      exact InInput.tells (fun next others after' returned' hinputs => by cases hinputs) hin hreads'
        hheaders'
  | cons next others ih =>
      intro input stream last returned hat hreads hheaders
      refine hat.tells hreads hheaders fun after hin hreads' hheaders' => ?_
      refine InInput.tells (fun next' others' after' returned' hinputs hnext => ?_) hin hreads'
        hheaders'
      cases hinputs
      exact ih hnext

/-! ## From the start -/

/-- Repeated `readSample()` on the reads of `inputs` returns the samples that are
complete in each of them and then raises EOF, and each input header has been
parsed. -/
def KeepsApart (fresh : ℕ → Bool) (bsf : BadSampleFilter) (inputs : List Input) : Prop :=
  ∃ last, Reads fresh (ofChannel true bsf (readsOf inputs)) (samplesOf inputs) .eof last ∧
    last.headersParsed = inputs.length

variable {bsf : BadSampleFilter} {inputs : List Input}

/-- The first call does the first read. -/
theorem atInput_ofChannel (hfilter : bsf.filterBadSamples = false) (input : Input)
    (inputs : List Input) :
    AtInput input (readsOf inputs) (ofChannel true bsf (readsOf (input :: inputs))) :=
  ⟨rfl, rfl, ⟨rfl, rfl⟩, rfl, rfl, hfilter, rfl, input.first.bytes.length, _, rfl, rfl, rfl⟩

theorem keepsApart_of_switchable (hfilter : bsf.filterBadSamples = false)
    (hswitchable : Switchable fresh 0 inputs) : KeepsApart fresh bsf inputs := by
  cases inputs with
  | nil =>
      exact ⟨{ ofChannel true bsf [] with io := { reads := [], newInput := false } },
        .stop 1 rfl (by simp), rfl⟩
  | cons input inputs =>
      obtain ⟨last, hreads, hheaders⟩ := (atInput_ofChannel hfilter input inputs).run hswitchable
      exact ⟨last, hreads, hheaders.trans (Nat.zero_add _)⟩

theorem switchable_of_keepsApart (hfilter : bsf.filterBadSamples = false)
    (happart : KeepsApart fresh bsf inputs) : Switchable fresh 0 inputs := by
  obtain ⟨last, hreads, hheaders⟩ := happart
  cases inputs with
  | nil => trivial
  | cons input inputs =>
      exact ((atInput_ofChannel hfilter input inputs).switchable_of_reads hreads
        (hheaders.trans (Nat.zero_add _).symm)).2 rfl

/-- The shortest header. -/
def shortHeader : List UInt8 := ascii "NCAR ADS3\n" ++ ascii "end header\n"

theorem shortHeader_valid : ValidHeader shortHeader :=
  ⟨"NCAR ADS3\n", by decide, _, .done, rfl⟩

/-- An input with one complete sample and four bytes of another one, in one read. -/
def cutInput : Input where
  header := shortHeader
  samples := [byteSample, byteSample]
  cut := 21
  first := ⟨shortHeader ++ (encodeAll [byteSample, byteSample]).take 21, true, by decide⟩
  rest := []
  validHeader := shortHeader_valid
  encodable := by
    intro samp hmem
    rw [List.mem_pair, or_self] at hmem
    exact hmem ▸ byteSample_encodable
  bytes := List.append_nil _
  newInput := rfl
  continuing := by simp [Continuing]
  nonempty := by simp [shortHeader, ascii]

/-- The same input with a first read of four bytes. -/
def slowInput : Input where
  header := shortHeader
  samples := [byteSample, byteSample]
  cut := 21
  first := ⟨shortHeader.take 4, true, by decide⟩
  rest := [⟨shortHeader.drop 4 ++ (encodeAll [byteSample, byteSample]).take 21, false, by decide⟩]
  validHeader := shortHeader_valid
  encodable := cutInput.encodable
  bytes := by decide
  newInput := rfl
  continuing := by simp [Continuing]
  nonempty := by simp [shortHeader, ascii]

end SampleInputStream

end Nidas.Dynld
