import Nidas.Core.HeaderParsing
import Nidas.Dynld.BlockReading

/-!
# How many input headers can be parsed

An input header is parsed at the start and each time that the flag of a new input
has been seen.  So the headers that have been parsed, the flagged reads that are
still to come and the header that is to be parsed next are never more than before:
`headerBudget` does not grow in any turn, whatever the bytes are.  A flagged read
that is passed without being seen makes it smaller.
-/

namespace Nidas.Dynld

open Core Lib

namespace SampleInputStream

variable {fresh : ℕ → Bool} {stream : SampleInputStream}

/-- The number of flagged reads. -/
def flags (reads : List ChannelRead) : ℕ := reads.countP ChannelRead.newInput

@[simp] theorem flags_nil : flags [] = 0 := rfl

@[simp] theorem flags_cons (read : ChannelRead) (rest : List ChannelRead) :
    flags (read :: rest) = flags rest + read.newInput.toNat := by
  rw [flags, List.countP_cons]
  cases read.newInput <;> rfl

/-- The flags of an `IOStream`, with the one that has just been read. -/
def ioFlags (io : IOStream) : ℕ := flags io.reads + io.newInput.toNat

/-- The headers that have been parsed, and those that can still be. -/
def headerBudget (stream : SampleInputStream) : ℕ :=
  stream.headersParsed + flags stream.io.reads + (!stream.inputHeaderParsed).toNat

/-! ## Physical reads -/

theorem ioFlags_load (io : IOStream) (read : ChannelRead) (rest : List ChannelRead) :
    ioFlags (io.load read rest) = flags (read :: rest) := by
  rw [flags_cons]
  rfl

theorem ioFlags_read_le {io after : IOStream} {len : Option ℕ} (hread : io.read = (len, after)) :
    ioFlags after ≤ flags io.reads := by
  unfold IOStream.read at hread
  split_ifs at hread
  · cases hread
    exact Nat.le_refl _
  · cases hreads : io.reads with
    | nil =>
        rw [hreads] at hread
        cases hread
        rw [ioFlags, IOStream.atEof, hreads]
        exact Nat.le_refl _
    | cons first rest =>
        rw [hreads] at hread
        cases hread
        rw [ioFlags_load]

theorem ioFlags_transferLoop_le :
    ∀ (reads : List ChannelRead) (len : ℕ) (data : List UInt8) (io : IOStream), io.reads = reads →
      ioFlags (IOStream.transferLoop reads len data io).io ≤ flags reads := by
  intro reads
  induction reads with
  | nil =>
      intro len data io hreads
      rw [IOStream.transferLoop, ioFlags, IOStream.atEof, hreads]
      exact Nat.le_refl _
  | cons read rest ih =>
      intro len data io hreads
      rw [IOStream.transferLoop]
      dsimp only
      split_ifs
      · rw [ioFlags_load]
      · refine (ih _ _ _ rfl).trans ?_
        rw [flags_cons]
        exact Nat.le_add_right _ _
      · exact Nat.le_of_eq (ioFlags_load io read rest)

theorem ioFlags_transfer_le (len : ℕ) (io : IOStream) :
    ioFlags (io.transfer len).io ≤ flags io.reads := by
  rw [IOStream.transfer]
  dsimp only
  split_ifs
  · exact ioFlags_transferLoop_le _ _ _ _ rfl
  · exact Nat.le_refl _

/-- Seeing a flag turns it into a header that is to be parsed. -/
theorem headerBudget_handleNewInput_le (hnew : stream.io.newInput = true) :
    headerBudget stream.handleNewInput ≤
      stream.headersParsed + ioFlags stream.io := by
  have hparsed : stream.handleNewInput.headersParsed = stream.headersParsed ∧
      stream.handleNewInput.io.reads = stream.io.reads ∧
      stream.handleNewInput.inputHeaderParsed = false := by
    unfold handleNewInput closeBlocks
    dsimp only
    split_ifs <;> exact ⟨rfl, rfl, rfl⟩
  rw [headerBudget, hparsed.1, hparsed.2.1, hparsed.2.2, ioFlags, hnew]
  exact Nat.le_of_eq (Nat.add_assoc _ _ _)

/-- What a read does to the budget. -/
theorem headerBudget_read_le (ptr : Bool) (len : ℕ) :
    headerBudget (stream.read true ptr len).2 ≤ headerBudget stream := by
  have hstep : ∀ io : IOStream, ioFlags io ≤ flags stream.io.reads → ∀ eof : Bool,
      headerBudget
          (if io.newInput then
            ({ stream with io := io, ateof := eof } : SampleInputStream).handleNewInput
          else { stream with io := io, ateof := eof }) ≤ headerBudget stream := by
    intro io hle eof
    split_ifs with hnew
    · refine (@headerBudget_handleNewInput_le { stream with io := io, ateof := eof } hnew).trans ?_
      rw [headerBudget]
      dsimp only
      omega
    · rw [headerBudget, headerBudget]
      dsimp only
      rw [ioFlags] at hle
      omega
  unfold SampleInputStream.read
  dsimp only
  cases ptr with
  | true =>
      have hle := ioFlags_transfer_le len stream.io
      simp only [if_true]
      cases heof : (stream.io.transfer len).eof with
      | true =>
          have hresult := hstep _ hle true
          simp only [if_true]
          split_ifs at hresult ⊢ <;> exact hresult
      | false =>
          have hresult := hstep _ hle stream.ateof
          simp only [Bool.false_eq_true, if_false]
          split_ifs at hresult ⊢ <;> exact hresult
  | false =>
      simp only [if_true, Bool.false_eq_true, if_false]
      cases hread : stream.io.read with
      | mk len io =>
          have hle := ioFlags_read_le hread
          cases len with
          | none =>
              have hresult := hstep _ hle true
              dsimp only
              split_ifs at hresult ⊢ <;> exact hresult
          | some len =>
              have hresult := hstep _ hle stream.ateof
              dsimp only
              split_ifs at hresult ⊢ <;> exact hresult

/-! ## Blocks -/

/-- The stream that a block leaves. -/
def Block.leaves (before : SampleInputStream) : Block → SampleInputStream
  | .wild => before
  | .block _ _ _ stream => stream

theorem Block.leaves_prepend (before : SampleInputStream) (data : List UInt8) (block : Block) :
    (block.prepend data).leaves before = block.leaves before := by
  cases block <;> rfl

theorem headerBudget_readBlockLoop_le (ptr : Bool) :
    ∀ (fuel lentoread : ℕ) (before stream : SampleInputStream),
      headerBudget stream ≤ headerBudget before →
      headerBudget ((readBlockLoop true ptr fuel lentoread stream).leaves before) ≤
        headerBudget before := by
  intro fuel
  induction fuel with
  | zero => intro lentoread before stream _; exact Nat.le_refl _
  | succ fuel ih =>
      intro lentoread before stream hle
      have hread := (@headerBudget_read_le stream ptr lentoread).trans hle
      rw [readBlockLoop]
      dsimp only
      split_ifs
      · exact Nat.le_refl _
      · rw [Block.leaves_prepend]
        exact ih _ _ _ hread
      · exact hread

theorem headerBudget_readBlock_le (ptr : Bool) (len : ℕ) :
    headerBudget ((readBlock true ptr len stream).leaves stream) ≤ headerBudget stream :=
  headerBudget_readBlockLoop_le ptr _ _ _ _ (Nat.le_refl _)

/-! ## A flag that is passed -/

/-- The flags that are left behind a walk, with the one in which it has ended. -/
def walkBudget (result : Ending × List UInt8 × IOStream) : ℕ :=
  flags result.2.2.reads + (decide (result.1 = .newinput)).toNat

theorem budget_gather_le :
    ∀ (reads : List ChannelRead) (len : ℕ) (data : List UInt8) (io : IOStream), io.reads = reads →
      walkBudget (gather reads len data io) ≤ flags reads := by
  intro reads
  induction reads with
  | nil =>
      intro len data io hreads
      simp [gather, walkBudget, IOStream.atEof, hreads]
  | cons read rest ih =>
      intro len data io hreads
      rw [gather, flags_cons]
      dsimp only
      split_ifs with hempty hnew hless hnew
      · simp [walkBudget, IOStream.load, hnew]
      · exact (ih _ _ _ rfl).trans (Nat.le_add_right _ _)
      · exact (ih _ _ _ rfl).trans (Nat.le_add_right _ _)
      · simp [walkBudget, IOStream.load, IOStream.readBuf, hnew]
      · simp [walkBudget, IOStream.load, IOStream.readBuf]

theorem headerBudget_gathered {len : ℕ} {result : Ending × List UInt8 × IOStream} {block : Block}
    (hparsed : stream.inputHeaderParsed = true) (hgathered : Gathered stream len result block) :
    headerBudget (block.leaves stream) ≤ stream.headersParsed + walkBudget result := by
  cases hgathered with
  | full _ _ _ => simp [Block.leaves, headerBudget, walkBudget, hparsed]
  | eof _ _ _ => simp [Block.leaves, headerBudget, walkBudget, hparsed]
  | newinput _ _ _ =>
      rename_i data io rr left heof hnew hleft
      have hafter : headerBudget ({ stream with io := io } : SampleInputStream).handleNewInput =
          stream.headersParsed + flags io.reads + 1 := by
        unfold handleNewInput closeBlocks
        dsimp only
        split_ifs <;> rfl
      exact Nat.le_of_eq hafter

/-- **A flagged read that is too short is lost for the budget.** -/
theorem headerBudget_readBlock_lt {len : ℕ} {pre post : List ChannelRead} {first : ChannelRead}
    (hlen : len < 2 ^ 64) (hparsed : stream.inputHeaderParsed = true)
    (hreads : stream.io.reads = pre ++ first :: post) (hcontinuing : Continuing pre)
    (hnew : first.newInput = true) (hne : first.bytes ≠ [])
    (hlt : stream.io.bytes.length + (bytesOf pre).length + first.bytes.length < len) :
    headerBudget ((readBlock true true len stream).leaves stream) <
      stream.headersParsed + flags (first :: post) := by
  obtain ⟨before, hgather⟩ := @gatherFrom_pass len stream.io pre (first :: post) hreads hcontinuing
    (by omega)
  have hmore : ((before.load first post).readBuf
      (len - stream.io.bytes.length - (bytesOf pre).length)).1 = first.bytes :=
    List.take_of_length_le (show first.bytes.length ≤ _ by omega)
  rw [gather] at hgather
  dsimp only at hgather
  rw [if_neg hne, hmore, if_pos (by omega)] at hgather
  have hwalk := budget_gather_le post
    (len - stream.io.bytes.length - (bytesOf pre).length - first.bytes.length)
    (stream.io.bytes ++ bytesOf pre ++ first.bytes)
    ((before.load first post).readBuf (len - stream.io.bytes.length - (bytesOf pre).length)).2 rfl
  rw [← hgather] at hwalk
  have hblock := headerBudget_gathered hparsed (@readBlock_gather stream len hlen)
  rw [flags_cons, hnew, Bool.toNat_true]
  omega

/-! ## The input header -/

/-- The stream when reading the input header has ended. -/
def HeaderRead.leaves : HeaderRead → SampleInputStream
  | .parsed stream => stream
  | .eof stream => stream
  | .exception _ stream => stream

/-- A header that is parsed was to be parsed. -/
theorem headerBudget_parseInputHeader_le (hparsed : stream.inputHeaderParsed = false) :
    headerBudget (parseInputHeader stream).2 ≤ headerBudget stream := by
  have hmoved := (parse_moved stream.inputHeader stream.io).reads
  unfold parseInputHeader
  dsimp only
  split_ifs
  · simp [headerBudget]
  · cases hresult : (stream.inputHeader.parse stream.io).result <;>
      simp [headerBudget, hmoved, hparsed, Nat.add_right_comm]
  · cases hresult : (stream.inputHeader.parse stream.io).result <;>
      simp [headerBudget, hmoved, hparsed, Nat.add_right_comm, IOStream.backup]

theorem headerBudget_readInputHeaderLoop_le :
    ∀ (fuel : ℕ) (stream : SampleInputStream),
      headerBudget (readInputHeaderLoop fuel stream).leaves ≤ headerBudget stream := by
  intro fuel
  induction fuel with
  | zero =>
      intro stream
      rw [readInputHeaderLoop]
      split_ifs <;> exact Nat.le_refl _
  | succ fuel ih =>
      intro stream
      rw [readInputHeaderLoop]
      split_ifs with hparsed
      · exact Nat.le_refl _
      · rw [Bool.not_eq_true] at hparsed
        have hio : ∀ len io, stream.io.read = (len, io) →
            headerBudget { stream with io := io } ≤ headerBudget stream := by
          intro len io hread
          have hle := ioFlags_read_le hread
          rw [ioFlags] at hle
          dsimp only [headerBudget]
          omega
        cases hread : stream.io.read with
        | mk len io =>
            have hle := hio len io hread
            cases len with
            | none => exact hle
            | some len =>
                have hparse := (@headerBudget_parseInputHeader_le { stream with io := io }
                  hparsed).trans hle
                dsimp only
                cases hresult : parseInputHeader { stream with io := io } with
                | mk what after =>
                    rw [hresult] at hparse
                    cases what with
                    | none => exact (ih after).trans hparse
                    | some what => exact hparse

/-! ## Turns and runs -/

/-- The stream after a turn. -/
def Turn.leaves : Turn → SampleInputStream
  | .ret _ stream => stream
  | .again _ stream => stream

theorem headerBudget_sampleComplete (searching : Bool) :
    headerBudget (sampleComplete searching stream).leaves = headerBudget stream := by
  unfold sampleComplete
  dsimp only
  generalize (if (stream.skipSample || searching) = true then none else stream.samp) = samp
  split_ifs with hfilter
  · rfl
  · cases samp <;> rfl

theorem headerBudget_dataRead (before : SampleInputStream) (block : Block) :
    headerBudget (dataRead false before block).leaves = headerBudget (block.leaves before) := by
  cases block with
  | wild => rfl
  | block stored lentoread rr after =>
      rw [dataRead]
      dsimp only
      split_ifs
      · rfl
      · rfl
      · rw [headerBudget_sampleComplete]
        rfl

theorem headerBudget_readData_le : headerBudget (readData true none stream).leaves ≤
    headerBudget stream := by
  unfold readData
  cases stream.sampPending with
  | some samp => exact Nat.le_refl _
  | none =>
      cases stream.samp with
      | none => exact Nat.le_of_eq (headerBudget_sampleComplete _)
      | some samp =>
          simp only [Option.any_none, Bool.and_false, Bool.false_eq_true, if_false,
            Option.isSome_none, headerBudget_dataRead]
          exact headerBudget_readBlock_le _ _

theorem headerBudget_sampleFromHeader :
    headerBudget (sampleFromHeader fresh stream) = headerBudget stream := by
  unfold sampleFromHeader
  dsimp only
  cases stream.bsf.accept (SampleHeader.ofBytes stream.sheader) with
  | none => rfl
  | some type =>
      dsimp only
      split_ifs <;> rfl

theorem headerBudget_headerRead_le (before : SampleInputStream) (block : Block) :
    headerBudget (headerRead fresh true none before block).leaves ≤
      headerBudget (block.leaves before) := by
  cases block with
  | wild => exact Nat.le_refl _
  | block stored lentoread rr after =>
      rw [headerRead]
      dsimp only
      split_ifs
      · exact Nat.le_refl _
      · exact Nat.le_refl _
      · have hsame := @headerBudget_sampleFromHeader fresh
          { after with headerToRead := lentoread, sheader := after.sheader ++ stored }
        rw [headerComplete]
        generalize sampleFromHeader fresh
          { after with headerToRead := lentoread, sheader := after.sheader ++ stored } = next at hsame
        cases next.samp with
        | none => exact Nat.le_of_eq hsame
        | some samp => exact headerBudget_readData_le.trans (Nat.le_of_eq hsame)

theorem headerBudget_readHeader_le : headerBudget (readHeader fresh true none stream).leaves ≤
    headerBudget stream := by
  unfold readHeader
  split_ifs
  · exact (headerBudget_headerRead_le _ _).trans (headerBudget_readBlock_le _ _)
  · exact headerBudget_readData_le

/-- **No turn makes more headers than there were.** -/
theorem headerBudget_nextSampleTurn_le (newinput : Bool) :
    headerBudget (nextSampleTurn fresh true none newinput stream).leaves ≤ headerBudget stream := by
  unfold nextSampleTurn
  split_ifs with heof hheader
  · unfold handleEOF
    cases stream.sampPending <;> exact Nat.le_refl _
  · split
    · exact Nat.le_refl _
    · have hle := headerBudget_readInputHeaderLoop_le (stream.io.reads.length + 3) stream
      rw [readInputHeader]
      cases hresult : readInputHeaderLoop (stream.io.reads.length + 3) stream with
      | parsed after =>
          rw [hresult] at hle
          exact headerBudget_readHeader_le.trans hle
      | eof after =>
          rw [hresult] at hle
          exact hle
      | exception what after =>
          rw [hresult] at hle
          exact hle
  · split
    · exact Nat.le_refl _
    · exact headerBudget_readHeader_le

theorem headerBudget_nextSample_le {outcome : Outcome} {after : SampleInputStream} :
    ∀ {turns : ℕ} {newinput : Bool} {stream : SampleInputStream},
      nextSample fresh true none turns newinput stream = some (outcome, after) →
      headerBudget after ≤
        headerBudget (nextSampleTurn fresh true none newinput stream).leaves := by
  intro turns
  induction turns with
  | zero => intro newinput stream hcall; cases hcall
  | succ turns ih =>
      intro newinput stream hcall
      rw [nextSample] at hcall
      cases hturn : nextSampleTurn fresh true none newinput stream with
      | ret outcome' after' =>
          rw [hturn] at hcall
          cases hcall
          exact Nat.le_refl _
      | again newinput' after' =>
          rw [hturn] at hcall
          exact (ih hcall).trans (headerBudget_nextSampleTurn_le newinput')

/-- **A run parses no more headers than are left after its first turn.** -/
theorem Reads.headersParsed_le {samples : List Sample} {outcome : Outcome}
    {last : SampleInputStream} (hreads : Reads fresh stream samples outcome last) :
    last.headersParsed ≤ headerBudget (nextSampleTurn fresh true none false stream).leaves := by
  induction hreads with
  | stop turns hcall _ =>
      refine Nat.le_trans ?_ (headerBudget_nextSample_le hcall)
      rw [headerBudget, Nat.add_assoc]
      exact Nat.le_add_right _ _
  | sample turns hcall _ ih =>
      exact ih.trans ((headerBudget_nextSampleTurn_le false).trans
        (headerBudget_nextSample_le hcall))

end SampleInputStream

end Nidas.Dynld
