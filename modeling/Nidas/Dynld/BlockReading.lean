import Mathlib.Order.Nat
import Nidas.Dynld.SampleInputStream

/-!
# Reading a block

`readBlock` with `keepreading` and a pointer goes through the reads of the channel
until it has its bytes, across empty reads and across the calls that it makes of
`IOStream::read`.  `gather` is that walk, and `readBlock_gather` says that the two
loops of the source do it.  Three lemmas follow for the three ways in which it
ends: with its bytes, at the end of the channel, and in a new input.
-/

namespace Nidas.Dynld

open Core Lib

namespace SampleInputStream

variable {stream : SampleInputStream}

theorem sizeSub_of_le {value len : ℕ} (hle : len ≤ value) (hvalue : value < 2 ^ 64) :
    sizeSub value len = value - len := by
  unfold sizeSub
  omega

/-! ## The walk through the reads -/

/-- How a block ends. -/
inductive Ending where
  | full
  | eof
  | newinput
  deriving DecidableEq, Repr

/-- Go through the reads until `len` bytes are there.  A read of a new input that
is too short is passed like any other. -/
def gather : List ChannelRead → ℕ → List UInt8 → IOStream → Ending × List UInt8 × IOStream
  | [], _, data, io => (.eof, data, io.atEof)
  | read :: rest, len, data, io =>
      let io := io.load read rest
      if read.bytes = [] then
        if read.newInput then (.newinput, data, io) else gather rest len data io
      else
        let (more, io) := io.readBuf len
        if more.length < len then gather rest (len - more.length) (data ++ more) io
        else (if read.newInput then .newinput else .full, data ++ more, io)

/-- What `readBlock` leaves in each case.  At the end of the channel the bytes of
the last call of `IOStream::read` are not counted. -/
inductive Gathered (stream : SampleInputStream) (len : ℕ) :
    Ending × List UInt8 × IOStream → Block → Prop where
  | full {data : List UInt8} {io : IOStream} {rr : ReadResult} (heof : rr.eof = false)
      (hnew : rr.newinput = false) (hlength : data.length = len) :
      Gathered stream len (.full, data, io) (.block data 0 rr { stream with io := io })
  | eof {data stored : List UInt8} {io : IOStream} {rr : ReadResult} {left : ℕ}
      (heof : rr.eof = true) (hnew : rr.newinput = false) (hleft : left + stored.length = len) :
      Gathered stream len (.eof, data, io)
        (.block stored left rr { stream with io := io, ateof := true })
  | newinput {data : List UInt8} {io : IOStream} {rr : ReadResult} {left : ℕ}
      (heof : rr.eof = false) (hnew : rr.newinput = true) (hleft : left + data.length = len) :
      Gathered stream len (.newinput, data, io)
        (.block data left rr ({ stream with io := io } : SampleInputStream).handleNewInput)

/-- The walk from any buffer. -/
def gatherFrom (len : ℕ) (io : IOStream) : Ending × List UInt8 × IOStream :=
  let (data, io) := { io with newInput := false }.readBuf len
  if data.length < len then gather io.reads (len - data.length) data io else (.full, data, io)

/-- Bytes that are there already stay in front. -/
theorem gather_append :
    ∀ (reads : List ChannelRead) (len : ℕ) (front data : List UInt8) (io : IOStream),
      gather reads len (front ++ data) io =
        ((gather reads len data io).1, front ++ (gather reads len data io).2.1,
          (gather reads len data io).2.2) := by
  intro reads
  induction reads with
  | nil => intro len front data io; rfl
  | cons read rest ih =>
      intro len front data io
      simp only [gather, List.append_assoc, ih]
      split_ifs <;> rfl

/-- How one call of `IOStream::read` goes on in the walk. -/
inductive TransferStep (reads : List ChannelRead) (len : ℕ) (data : List UInt8) (io : IOStream) :
    IOStream.Transfer → Prop where
  | eof {stored all : List UInt8} {after : IOStream}
      (hgather : gather reads len data io = (.eof, all, after)) :
      TransferStep reads len data io ⟨stored, true, after⟩
  | full {more : List UInt8} {after : IOStream} (hlength : more.length = len)
      (hgather : gather reads len data io =
        (if after.newInput then .newinput else .full, data ++ more, after)) :
      TransferStep reads len data io ⟨data ++ more, false, after⟩
  | short {more : List UInt8} {after : IOStream} (hlength : more.length < len)
      (hbytes : after.bytes = []) (hshorter : after.reads.length < reads.length)
      (hgather : gather reads len data io =
        if after.newInput then (.newinput, data ++ more, after)
        else gather after.reads (len - more.length) (data ++ more) after) :
      TransferStep reads len data io ⟨data ++ more, false, after⟩

theorem transferLoop_step :
    ∀ (reads : List ChannelRead) (len : ℕ) (data : List UInt8) (io : IOStream), 0 < len →
      TransferStep reads len data io (IOStream.transferLoop reads len data io) := by
  intro reads
  induction reads with
  | nil => intro len data io _; exact .eof rfl
  | cons read rest ih =>
      intro len data io hlen
      rw [IOStream.transferLoop]
      dsimp only
      by_cases hempty : read.bytes = []
      · rw [if_pos hempty]
        have hshort := @TransferStep.short (read :: rest) len data io [] (io.load read rest) hlen
          hempty (Nat.lt_succ_self _) (by
            rw [gather]
            simp only [hempty, if_true, List.append_nil, List.length_nil, Nat.sub_zero]
            rfl)
        rwa [List.append_nil] at hshort
      · rw [if_neg hempty]
        by_cases hless : ((io.load read rest).readBuf len).1.length < len
        · -- the whole read was used, the call goes on with the next one
          rw [if_pos hless]
          have hgather : gather (read :: rest) len data io =
              gather rest (len - ((io.load read rest).readBuf len).1.length)
                (data ++ ((io.load read rest).readBuf len).1) ((io.load read rest).readBuf len).2 := by
            rw [gather]
            simp only [hempty, if_false, hless, if_true]
          have hstep := ih (len - ((io.load read rest).readBuf len).1.length)
            (data ++ ((io.load read rest).readBuf len).1) ((io.load read rest).readBuf len).2
            (by omega)
          generalize IOStream.transferLoop rest _ _ _ = transfer at hstep
          cases hstep with
          | eof hrest => exact .eof (hgather.trans hrest)
          | full hlength hrest =>
              rw [List.append_assoc] at hrest ⊢
              exact .full (by rw [List.length_append]; omega) (hgather.trans hrest)
          | short hlength hbytes hshorter hrest =>
              rw [List.append_assoc] at hrest ⊢
              refine .short (by rw [List.length_append]; omega) hbytes
                (hshorter.trans (Nat.lt_succ_self _)) ((hgather.trans hrest).trans ?_)
              rw [List.length_append, Nat.sub_sub]
        · rw [if_neg hless]
          refine .full ?_ ?_
          · have hle : ((io.load read rest).readBuf len).1.length ≤ len := by
              simp [IOStream.readBuf]
            omega
          · rw [gather]
            simp only [hempty, if_false, hless]
            rfl

/-- `SampleInputStream::read` in terms of the call of `IOStream::read` that it
makes. -/
theorem read_of_transfer {len : ℕ} {data : List UInt8} {io : IOStream}
    (htransfer : stream.io.transfer len = ⟨data, false, io⟩) :
    stream.read true true len =
      if io.newInput then
        ({ len := data.length, newinput := true, stored := data },
          ({ stream with io := io } : SampleInputStream).handleNewInput)
      else
        ({ len := data.length, newinput := false, stored := data }, { stream with io := io }) := by
  simp only [read, htransfer, if_true, Bool.false_eq_true, if_false]
  cases hnew : io.newInput <;> simp

theorem read_of_eof {len : ℕ} {data : List UInt8} {io : IOStream}
    (htransfer : stream.io.transfer len = ⟨data, true, io⟩) (hnew : io.newInput = false) :
    stream.read true true len =
      ({ eof := true, newinput := false }, { stream with io := io, ateof := true }) := by
  simp [read, htransfer, hnew]

theorem gather_eof_newInput {reads : List ChannelRead} {len : ℕ} {data all : List UInt8}
    {io after : IOStream} (hgather : gather reads len data io = (.eof, all, after)) :
    after.newInput = false := by
  induction reads generalizing len data io with
  | nil =>
      cases hgather
      rfl
  | cons read rest ih =>
      simp only [gather] at hgather
      split_ifs at hgather with hempty hnew hless hlast
      · cases hgather
      · exact ih hgather
      · exact ih hgather
      · cases hgather
      · cases hgather

theorem gatherFrom_of_nil {len : ℕ} {io : IOStream} (hlen : 0 < len) (hbytes : io.bytes = [])
    (hnew : io.newInput = false) : gatherFrom len io = gather io.reads len [] io := by
  have hsame : ({ io with newInput := false }.readBuf len) = ([], io) := by
    cases io
    simp_all [IOStream.readBuf]
  rw [gatherFrom, hsame]
  simp [hlen]

/-- Bytes that an earlier call has stored go in front. -/
theorem Gathered.append {len left : ℕ} {data more : List UInt8} {io after : IOStream}
    {ending : Ending} {block : Block} (hlength : left + data.length = len)
    (hgathered : Gathered { stream with io := after } left (ending, more, io) block) :
    Gathered stream len (ending, data ++ more, io) (block.prepend data) := by
  cases hgathered with
  | full heof hnew hmore =>
      exact .full heof hnew (by rw [List.length_append]; omega)
  | eof heof hnew hleft => exact .eof heof hnew (by rw [List.length_append]; omega)
  | newinput heof hnew hleft => exact .newinput heof hnew (by rw [List.length_append]; omega)

theorem readBlockLoop_gather :
    ∀ (fuel len : ℕ) (stream : SampleInputStream), len < 2 ^ 64 →
      stream.io.reads.length + 1 < fuel →
      Gathered stream len (gatherFrom len stream.io)
        (readBlockLoop true true fuel len stream) := by
  intro fuel
  induction fuel with
  | zero => intro len stream _ hfuel; omega
  | succ fuel ih =>
      intro len stream hlen hfuel
      have hreads : ({ stream.io with newInput := false }.readBuf len).2.reads =
          stream.io.reads := rfl
      have hle : ({ stream.io with newInput := false }.readBuf len).1.length ≤ len := by
        simp [IOStream.readBuf]
      rw [gatherFrom, readBlockLoop]
      generalize hfront : { stream.io with newInput := false }.readBuf len = front at hreads hle
      have htransfer : stream.io.transfer len =
          if front.1.length < len then
            IOStream.transferLoop front.2.reads (len - front.1.length) front.1 front.2
          else ⟨front.1, false, front.2⟩ := by
        rw [IOStream.transfer, hfront]
      dsimp only
      by_cases hless : front.1.length < len
      · rw [if_pos hless] at htransfer ⊢
        have hstep := transferLoop_step front.2.reads (len - front.1.length) front.1 front.2
          (by omega)
        rw [← htransfer] at hstep
        generalize htransfer' : stream.io.transfer len = transfer at hstep
        cases hstep with
        | eof hgather =>
            rw [hgather, read_of_eof htransfer' (gather_eof_newInput hgather)]
            simp only [Bool.not_true, Bool.and_false, Bool.false_and, Bool.false_eq_true, if_false]
            exact .eof rfl rfl (by rw [sizeSub_of_le (Nat.zero_le _) hlen]; rfl)
        | full hlength hgather =>
            rename_i more after
            have hall : (front.1 ++ more).length = len := by rw [List.length_append]; omega
            rw [hgather, read_of_transfer htransfer']
            cases hnew : after.newInput with
            | true =>
                simp only [if_true, hall, sizeSub_of_le (Nat.le_refl _) hlen, Nat.sub_self,
                  gt_iff_lt, Nat.lt_irrefl, decide_false, Bool.and_false, Bool.false_and,
                  Bool.false_eq_true, if_false]
                exact .newinput rfl rfl (by omega)
            | false =>
                simp only [Bool.false_eq_true, if_false, hall, sizeSub_of_le (Nat.le_refl _) hlen,
                  Nat.sub_self, gt_iff_lt, Nat.lt_irrefl, decide_false, Bool.and_false,
                  Bool.false_and]
                exact .full rfl rfl hall
        | short hlength hbytes hshorter hgather =>
            -- an empty read: the loop of readBlock makes another call
            rename_i more after
            rw [hreads] at hshorter
            have hpart : (front.1 ++ more).length < len := by rw [List.length_append]; omega
            have hleft : sizeSub len (front.1 ++ more).length = len - (front.1 ++ more).length :=
              sizeSub_of_le (Nat.le_of_lt hpart) hlen
            rw [hgather, read_of_transfer htransfer']
            cases hnew : after.newInput with
            | true =>
                simp only [if_true, Bool.not_true, Bool.and_false, Bool.false_eq_true, if_false,
                  hleft]
                exact .newinput rfl rfl (by omega)
            | false =>
                have hpos : len - (front.1 ++ more).length > 0 := by omega
                have hrest := ih (len - (front.1 ++ more).length) { stream with io := after }
                  (by omega) (by dsimp only; omega)
                rw [gatherFrom_of_nil hpos hbytes hnew] at hrest
                have hsub : len - front.1.length - more.length =
                    len - (front.1 ++ more).length := by
                  rw [List.length_append]
                  omega
                have hmore := gather_append after.reads (len - (front.1 ++ more).length)
                  (front.1 ++ more) [] after
                rw [List.append_nil] at hmore
                rw [if_neg Bool.false_ne_true, hsub, hmore]
                simp only [Bool.false_eq_true, if_false, Bool.not_false, Bool.and_true, hleft, hpos,
                  decide_true, if_true, Bool.not_true, Bool.false_and]
                exact @Gathered.append stream len _ (front.1 ++ more) _ _ after _ _ (by omega) hrest
      · rw [if_neg hless] at htransfer ⊢
        have hall : front.1.length = len := by omega
        have hnew : front.2.newInput = false := by rw [← hfront]; rfl
        rw [read_of_transfer htransfer, hnew]
        simp only [Bool.false_eq_true, if_false, hall, sizeSub_of_le (Nat.le_refl _) hlen,
          Nat.sub_self, gt_iff_lt, Nat.lt_irrefl, decide_false, Bool.and_false, Bool.false_and]
        exact .full rfl rfl hall

/-- **The two loops are the walk through the reads.** -/
theorem readBlock_gather {len : ℕ} (hlen : len < 2 ^ 64) :
    Gathered stream len (gatherFrom len stream.io) (readBlock true true len stream) :=
  readBlockLoop_gather _ _ _ hlen (by omega)

/-! ## How the walk ends -/

/-- The bytes of a list of reads. -/
def bytesOf (reads : List ChannelRead) : List UInt8 := reads.flatMap ChannelRead.bytes

@[simp] theorem bytesOf_nil : bytesOf [] = [] := rfl

@[simp] theorem bytesOf_cons (read : ChannelRead) (rest : List ChannelRead) :
    bytesOf (read :: rest) = read.bytes ++ bytesOf rest := List.flatMap_cons

@[simp] theorem bytesOf_append (front back : List ChannelRead) :
    bytesOf (front ++ back) = bytesOf front ++ bytesOf back := List.flatMap_append

theorem unread_eq (io : IOStream) : io.unread = io.bytes ++ bytesOf io.reads := rfl

/-- None of the reads is the first of a new input. -/
def Continuing (reads : List ChannelRead) : Prop := ∀ read ∈ reads, read.newInput = false

theorem gather_full :
    ∀ (pre post : List ChannelRead) (len : ℕ) (data : List UInt8) (io : IOStream), 0 < len →
      Continuing pre → len ≤ (bytesOf pre).length →
      ∃ after, gather (pre ++ post) len data io = (.full, data ++ (bytesOf pre).take len, after) ∧
        (after.bytes, after.reads) = advance ChannelRead.bytes len [] (pre ++ post) ∧
        after.newInput = false ∧ after.nbytesIn = io.nbytesIn + len := by
  intro pre
  induction pre with
  | nil =>
      intro post len data io hlen _ hle
      rw [bytesOf_nil, List.length_nil] at hle
      omega
  | cons read rest ih =>
      intro post len data io hlen hcontinuing hle
      have hnew : read.newInput = false := hcontinuing read (List.mem_cons_self ..)
      have hrest : Continuing rest := fun other hother =>
        hcontinuing other (List.mem_cons_of_mem _ hother)
      rw [bytesOf_cons, List.length_append] at hle
      rw [List.cons_append, gather, advance_of_lt (by simpa using hlen), List.length_nil,
        Nat.sub_zero, bytesOf_cons]
      simp only [hnew, Bool.false_eq_true, if_false]
      by_cases hempty : read.bytes = []
      · rw [if_pos hempty, hempty]
        rw [hempty, List.length_nil, Nat.zero_add] at hle
        obtain ⟨after, hgather, hadvance, hafter, hcount⟩ :=
          ih post len data (io.load read (rest ++ post)) hlen hrest hle
        exact ⟨after, hgather, hadvance, hafter, by rw [hcount]; simp [IOStream.load, hnew]⟩
      · rw [if_neg hempty]
        have hmore : ((io.load read (rest ++ post)).readBuf len).1 = read.bytes.take len := rfl
        rw [hmore, List.length_take]
        rcases Nat.lt_or_ge read.bytes.length len with hshort | hlong
        · rw [if_pos (by omega), List.take_of_length_le (Nat.le_of_lt hshort),
            Nat.min_eq_right (Nat.le_of_lt hshort)]
          obtain ⟨after, hgather, hadvance, hafter, hcount⟩ :=
            ih post (len - read.bytes.length) (data ++ read.bytes)
              ((io.load read (rest ++ post)).readBuf len).2 (by omega) hrest (by omega)
          refine ⟨after, ?_, ?_, hafter, ?_⟩
          · rw [hgather, List.take_append, List.take_of_length_le (Nat.le_of_lt hshort),
              List.append_assoc]
          · rw [hadvance]
            cases hall : rest ++ post with
            | nil =>
                rw [(List.append_eq_nil_iff.mp hall).1, bytesOf_nil, List.length_nil] at hle
                omega
            | cons next more =>
                rw [advance_of_lt hshort, advance_of_lt (by simp; omega)]
                simp
          · rw [hcount]
            simp only [IOStream.readBuf, IOStream.load, hnew, Bool.false_eq_true, if_false,
              List.length_take]
            omega
        · rw [if_neg (by omega), List.take_append_of_le_length hlong]
          refine ⟨_, rfl, ?_, hnew, ?_⟩
          · rw [advance_of_le hlong]
            rfl
          · simp only [IOStream.readBuf, IOStream.load, hnew, Bool.false_eq_true, if_false,
              List.length_take]
            omega

/-- Enough bytes in this input. -/
theorem gatherFrom_full {len : ℕ} {io : IOStream} {pre post : List ChannelRead}
    (hreads : io.reads = pre ++ post) (hcontinuing : Continuing pre)
    (hle : len ≤ io.bytes.length + (bytesOf pre).length) :
    ∃ after, gatherFrom len io = (.full, io.unread.take len, after) ∧
      (after.bytes, after.reads) = advance ChannelRead.bytes len io.bytes io.reads ∧
      after.newInput = false ∧ after.nbytesIn = io.nbytesIn + len := by
  have hunread : io.unread = io.bytes ++ (bytesOf pre ++ bytesOf post) := by
    rw [unread_eq, hreads, bytesOf_append]
  have hfront : ({ io with newInput := false }.readBuf len).1 = io.bytes.take len := rfl
  rw [gatherFrom]
  dsimp only
  rw [hfront, List.length_take]
  rcases Nat.lt_or_ge io.bytes.length len with hshort | hlong
  · rw [if_pos (by omega), List.take_of_length_le (Nat.le_of_lt hshort),
      Nat.min_eq_right (Nat.le_of_lt hshort)]
    have hsame : ({ io with newInput := false }.readBuf len).2.reads = pre ++ post := hreads
    obtain ⟨after, hgather, hadvance, hafter, hcount⟩ := gather_full pre post
      (len - io.bytes.length) io.bytes ({ io with newInput := false }.readBuf len).2 (by omega)
      hcontinuing (by omega)
    refine ⟨after, ?_, ?_, hafter, ?_⟩
    · rw [hsame, hgather, hunread, List.take_append, List.take_of_length_le (Nat.le_of_lt hshort),
        List.take_append_of_le_length (by omega)]
    · rw [hadvance, hreads]
      cases hall : pre ++ post with
      | nil =>
          rw [(List.append_eq_nil_iff.mp hall).1, bytesOf_nil, List.length_nil] at hle
          omega
      | cons next more =>
          rw [advance_of_lt hshort, advance_of_lt (by simp; omega)]
          simp
    · rw [hcount]
      simp only [IOStream.readBuf, List.length_take]
      omega
  · rw [if_neg (by omega)]
    refine ⟨({ io with newInput := false }.readBuf len).2, ?_, ?_, rfl, ?_⟩
    · rw [hunread, List.take_append_of_le_length hlong]
    · rw [advance_of_le hlong]
      rfl
    · simp only [IOStream.readBuf, List.length_take]
      omega

theorem Continuing.of_cons {read : ChannelRead} {rest : List ChannelRead}
    (hcontinuing : Continuing (read :: rest)) : read.newInput = false ∧ Continuing rest :=
  ⟨hcontinuing read (List.mem_cons_self ..),
    fun other hother => hcontinuing other (List.mem_cons_of_mem _ hother)⟩

/-- Reads that are too short are passed, whether they are empty or not. -/
theorem gather_pass :
    ∀ (pre post : List ChannelRead) (len : ℕ) (data : List UInt8) (io : IOStream),
      Continuing pre → (bytesOf pre).length < len →
      ∃ after, gather (pre ++ post) len data io =
        gather post (len - (bytesOf pre).length) (data ++ bytesOf pre) after := by
  intro pre
  induction pre with
  | nil =>
      intro post len data io _ _
      exact ⟨io, by simp⟩
  | cons read rest ih =>
      intro post len data io hcontinuing hlt
      obtain ⟨hnew, hrest⟩ := hcontinuing.of_cons
      rw [bytesOf_cons, List.length_append] at hlt
      rw [List.cons_append, gather]
      simp only [hnew, Bool.false_eq_true, if_false, bytesOf_cons]
      by_cases hempty : read.bytes = []
      · rw [if_pos hempty, hempty, List.nil_append]
        exact ih post len data _ hrest (by omega)
      · have hmore : ((io.load read (rest ++ post)).readBuf len).1 = read.bytes :=
          List.take_of_length_le (show read.bytes.length ≤ len by omega)
        rw [if_neg hempty, hmore, if_pos (by omega)]
        obtain ⟨after, hgather⟩ := ih post (len - read.bytes.length) (data ++ read.bytes)
          ((io.load read (rest ++ post)).readBuf len).2 hrest (by omega)
        exact ⟨after, by rw [hgather, List.append_assoc, List.length_append, Nat.sub_sub]⟩

theorem gatherFrom_pass {len : ℕ} {io : IOStream} {pre post : List ChannelRead}
    (hreads : io.reads = pre ++ post) (hcontinuing : Continuing pre)
    (hlt : io.bytes.length + (bytesOf pre).length < len) :
    ∃ after, gatherFrom len io =
      gather post (len - io.bytes.length - (bytesOf pre).length) (io.bytes ++ bytesOf pre)
        after := by
  have hfront : ({ io with newInput := false }.readBuf len).1 = io.bytes :=
    List.take_of_length_le (by dsimp only; omega)
  have hsame : ({ io with newInput := false }.readBuf len).2.reads = pre ++ post := hreads
  rw [gatherFrom]
  dsimp only
  rw [hfront, hsame, if_pos (by omega)]
  exact gather_pass pre post _ _ _ hcontinuing (by omega)

/-- The channel ends before the block is complete. -/
theorem gatherFrom_eof {len : ℕ} {io : IOStream} (hcontinuing : Continuing io.reads)
    (hlt : io.unread.length < len) :
    ∃ data after, gatherFrom len io = (.eof, data, after) := by
  rw [unread_eq, List.length_append] at hlt
  obtain ⟨after, hgather⟩ := @gatherFrom_pass len io io.reads [] (List.append_nil _).symm
    hcontinuing hlt
  exact ⟨_, _, hgather⟩

/-- The block ends in the first read of a new input, which is backed up as a
whole. -/
theorem gatherFrom_newinput {len : ℕ} {io : IOStream} {pre post : List ChannelRead}
    {first : ChannelRead} (hreads : io.reads = pre ++ first :: post) (hcontinuing : Continuing pre)
    (hnew : first.newInput = true) (hlt : io.bytes.length + (bytesOf pre).length < len)
    (hle : len ≤ io.bytes.length + (bytesOf pre).length + first.bytes.length) :
    ∃ data after, gatherFrom len io = (.newinput, data, after) ∧
      after.backup = ⟨post, [], first.bytes, true, 0⟩ := by
  obtain ⟨before, hgather⟩ := gatherFrom_pass hreads hcontinuing hlt
  have hne : first.bytes ≠ [] := by
    intro hempty
    rw [hempty, List.length_nil] at hle
    omega
  have hlength : ((before.load first post).readBuf
      (len - io.bytes.length - (bytesOf pre).length)).1.length =
        len - io.bytes.length - (bytesOf pre).length := by
    simp only [IOStream.readBuf, IOStream.load, List.length_take]
    omega
  rw [hgather, gather]
  dsimp only
  rw [if_neg hne, hlength, if_neg (Nat.lt_irrefl _), if_pos hnew]
  refine ⟨_, _, rfl, ?_⟩
  simp [IOStream.backup, IOStream.readBuf, IOStream.load, hnew]

/-- Advancing leaves some of the reads. -/
theorem Continuing.advance {need : ℕ} {io after : IOStream} (hcontinuing : Continuing io.reads)
    (hadvance : (after.bytes, after.reads) =
      Lib.advance ChannelRead.bytes need io.bytes io.reads) : Continuing after.reads := by
  intro read hmem
  have hsuffix := @advance_suffix _ _ ChannelRead.bytes io.reads need io.bytes
  rw [← hadvance] at hsuffix
  exact hcontinuing read (hsuffix.subset hmem)

/-! ## A null data pointer -/

/-- With bytes in the buffer nothing is read. -/
theorem readBlock_null_of_bytes (hbytes : stream.io.bytes ≠ []) :
    readBlock true false 0 stream =
      .block [] 0 {} { stream with io := { stream.io with newInput := false } } := by
  have hread : stream.io.read = (some 0, { stream.io with newInput := false }) :=
    if_pos (List.length_pos_iff.mpr hbytes)
  simp [readBlock, readBlockLoop, read, hread, sizeSub]

/-- A physical read of the channel into the empty buffer. -/
theorem read_of_nil {io : IOStream} {first : ChannelRead} {rest : List ChannelRead}
    (hbytes : io.bytes = []) (hreads : io.reads = first :: rest) :
    io.read = (some first.bytes.length, io.load first rest) := by
  rw [IOStream.read, if_neg (by simp [IOStream.available, hbytes]), hreads]

/-- A read that returns nothing does no harm. -/
theorem readBlock_null_of_empty {first : ChannelRead} {rest : List ChannelRead}
    (hbytes : stream.io.bytes = []) (hreads : stream.io.reads = first :: rest)
    (hempty : first.bytes = []) (hnew : first.newInput = false) :
    readBlock true false 0 stream = .block [] 0 {} { stream with io := stream.io.load first rest } := by
  have hread := read_of_nil hbytes hreads
  simp [readBlock, readBlockLoop, read, hread, sizeSub, IOStream.load, hempty, hnew]

/-- At the end of the channel the sample is lost. -/
theorem readBlock_null_of_eof (hbytes : stream.io.bytes = []) (hreads : stream.io.reads = []) :
    readBlock true false 0 stream =
      .block [] 0 { eof := true } { stream with io := stream.io.atEof, ateof := true } := by
  have hread : stream.io.read = (none, stream.io.atEof) := by
    rw [IOStream.read, if_neg (by simp [IOStream.available, hbytes]), hreads]
  simp [readBlock, readBlockLoop, read, hread, sizeSub, IOStream.atEof]

/-- Bytes that are read are subtracted from the count of zero. -/
theorem readBlock_null_wild {first : ChannelRead} {rest : List ChannelRead}
    (hbytes : stream.io.bytes = []) (hreads : stream.io.reads = first :: rest)
    (hne : first.bytes ≠ []) (hnew : first.newInput = false) :
    readBlock true false 0 stream = .wild := by
  have hread := read_of_nil hbytes hreads
  have hlength := List.length_pos_iff.mpr hne
  have hlt := first.length_lt
  have hwrap : 0 < sizeSub 0 first.bytes.length := by
    unfold sizeSub
    omega
  rw [readBlock, readBlockLoop]
  simp only [read, hread, if_true, Bool.false_eq_true, if_false, IOStream.load, hnew, Bool.not_false,
    Bool.and_true, Bool.true_and]
  rw [if_pos (by simpa using hwrap), if_pos (by simpa using hne)]

/-! ## Within one input -/

/-- Bytes have been taken from the front of what is unread. -/
structure Taken (io : IOStream) (len : ℕ) (stored : List UInt8) (left : ℕ) (after : IOStream) :
    Prop where
  unread : stored ++ after.unread = io.unread
  count : left + stored.length = len
  nbytesIn : after.nbytesIn = io.nbytesIn + stored.length
  newInput : after.newInput = false
  continuing : Continuing after.reads

/-- How a block is read when no new input comes: it is stored, completely if reading
goes on, or the channel ends, or bytes are stored through a null pointer. -/
inductive BlockRead (keepreading ptr : Bool) (len : ℕ) (stream : SampleInputStream) :
    Block → Prop where
  | taken {stored : List UInt8} {left : ℕ} {rr : ReadResult} {io : IOStream}
      (heof : rr.eof = false) (hnew : rr.newinput = false)
      (htaken : Taken stream.io len stored left io) (hleft : 0 < left → keepreading = false) :
      BlockRead keepreading ptr len stream (.block stored left rr { stream with io := io })
  | eof {stored : List UInt8} {left : ℕ} {rr : ReadResult} {io : IOStream}
      (heof : rr.eof = true) (hnew : rr.newinput = false)
      (hshort : ptr = true → stream.io.unread.length < len) :
      BlockRead keepreading ptr len stream
        (.block stored left rr { stream with io := io, ateof := true })
  | wild (hptr : ptr = false) : BlockRead keepreading ptr len stream .wild

theorem taken_readBuf {io : IOStream} (hcontinuing : Continuing io.reads)
    (hnew : io.newInput = false) (len : ℕ) :
    Taken io len (io.readBuf len).1 (len - (io.readBuf len).1.length) (io.readBuf len).2 := by
  refine ⟨?_, ?_, rfl, hnew, hcontinuing⟩
  · rw [unread_eq, unread_eq, ← List.append_assoc]
    exact congrArg (· ++ bytesOf io.reads) (List.take_append_drop len io.bytes)
  · have hle : (io.readBuf len).1.length ≤ len := by simp [IOStream.readBuf]
    omega

theorem readBlock_within_keepreading {len : ℕ} (hlen : len < 2 ^ 64)
    (hcontinuing : Continuing stream.io.reads) :
    BlockRead true true len stream (readBlock true true len stream) := by
  have hblock := @readBlock_gather stream len hlen
  rcases Nat.lt_or_ge stream.io.unread.length len with hlt | hge
  · obtain ⟨data, io, hgather⟩ := gatherFrom_eof hcontinuing hlt
    rw [hgather] at hblock
    generalize readBlock true true len stream = result at hblock
    cases hblock with
    | eof heof hnew _ => exact .eof heof hnew fun _ => hlt
  · have hle : len ≤ stream.io.bytes.length + (bytesOf stream.io.reads).length := by
      rwa [unread_eq, List.length_append] at hge
    obtain ⟨io, hgather, hadvance, hnew, hcount⟩ := @gatherFrom_full len stream.io stream.io.reads []
      (List.append_nil _).symm hcontinuing hle
    rw [hgather] at hblock
    generalize readBlock true true len stream = result at hblock
    cases hblock with
    | full heof hnewinput hlength =>
        refine .taken heof hnewinput ⟨?_, ?_, ?_, hnew, hcontinuing.advance hadvance⟩
          (fun hpos => absurd hpos (Nat.lt_irrefl 0))
        · have hunread : io.unread = stream.io.unread.drop len := by
            rw [IOStream.unread, show io.bytes = (io.bytes, io.reads).1 from rfl,
              show io.reads = (io.bytes, io.reads).2 from rfl, hadvance, unread_advance]
            rfl
          rw [hunread, List.take_append_drop]
        · rw [hlength, Nat.zero_add]
        · rw [hcount, hlength]

theorem readBlock_within_null {keepreading : Bool} (hcontinuing : Continuing stream.io.reads)
    (hnew : stream.io.newInput = false) :
    BlockRead keepreading false 0 stream (readBlock keepreading false 0 stream) := by
  cases keepreading with
  | false =>
      have hread : readBlock false false 0 stream = .block [] 0 {} { stream with io := stream.io } := by
        simp [readBlock, readBlockLoop, read, hnew, sizeSub]
      rw [hread]
      exact .taken rfl rfl ⟨rfl, rfl, by simp, hnew, hcontinuing⟩ fun _ => rfl
  | true =>
      by_cases hbytes : stream.io.bytes = []
      · cases hreads : stream.io.reads with
        | nil =>
            rw [readBlock_null_of_eof hbytes hreads]
            exact .eof rfl rfl fun hptr => by cases hptr
        | cons first rest =>
            rw [hreads] at hcontinuing
            by_cases hempty : first.bytes = []
            · rw [readBlock_null_of_empty hbytes hreads hempty hcontinuing.of_cons.1]
              refine .taken rfl rfl ⟨?_, rfl, ?_, hcontinuing.of_cons.1, hcontinuing.of_cons.2⟩
                fun hpos => absurd hpos (Nat.lt_irrefl 0)
              · rw [unread_eq, unread_eq, hreads, hbytes, bytesOf_cons]
                rfl
              · simp [IOStream.load, hcontinuing.of_cons.1]
            · rw [readBlock_null_wild hbytes hreads hempty hcontinuing.of_cons.1]
              exact .wild rfl
      · rw [readBlock_null_of_bytes hbytes]
        exact .taken rfl rfl ⟨rfl, rfl, by simp, rfl, hcontinuing⟩
          fun hpos => absurd hpos (Nat.lt_irrefl 0)

/-- **How `readBlock` ends within one input.** -/
theorem readBlock_within {keepreading ptr : Bool} {len : ℕ} (hlen : len < 2 ^ 64)
    (hptr : ptr = false → len = 0) (hcontinuing : Continuing stream.io.reads)
    (hnew : stream.io.newInput = false) :
    BlockRead keepreading ptr len stream (readBlock keepreading ptr len stream) := by
  cases ptr with
  | false =>
      rw [hptr rfl]
      exact readBlock_within_null hcontinuing hnew
  | true =>
      cases keepreading with
      | true => exact readBlock_within_keepreading hlen hcontinuing
      | false =>
          have hle : (stream.io.readBuf len).1.length ≤ len := by simp [IOStream.readBuf]
          have hread : readBlock false true len stream =
              .block (stream.io.readBuf len).1 (len - (stream.io.readBuf len).1.length)
                { len := (stream.io.readBuf len).1.length, stored := (stream.io.readBuf len).1 }
                { stream with io := (stream.io.readBuf len).2 } := by
            have hafter : (stream.io.readBuf len).2.newInput = false := hnew
            rw [readBlock, readBlockLoop]
            simp only [read, Bool.false_eq_true, if_false, if_true, hafter, Bool.false_and,
              sizeSub_of_le hle hlen]
          rw [hread]
          exact .taken rfl rfl (taken_readBuf hcontinuing hnew len) fun _ => rfl

end SampleInputStream

end Nidas.Dynld
