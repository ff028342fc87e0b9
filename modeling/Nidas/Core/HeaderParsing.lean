import Nidas.Core.SampleInputHeader

/-!
# Parsing stays in the buffer

The parser of the input header takes bytes from the buffer and, before it throws an
exception, puts them back.  It never reads the channel, so all it does to an
`IOStream` is to move `_tail`.
-/

namespace Nidas.Core

namespace IOStream

/-- Only `_tail` has moved. -/
structure Moved (io after : IOStream) : Prop where
  reads : after.reads = io.reads
  newInput : after.newInput = io.newInput
  buffer : after.used ++ after.bytes = io.used ++ io.bytes
  offset : after.nbytesIn - after.used.length = io.nbytesIn - io.used.length

variable {io middle after : IOStream}

theorem Moved.refl (io : IOStream) : Moved io io := ⟨rfl, rfl, rfl, rfl⟩

theorem Moved.trans (hfirst : Moved io middle) (hsecond : Moved middle after) : Moved io after :=
  ⟨hsecond.reads.trans hfirst.reads, hsecond.newInput.trans hfirst.newInput,
    hsecond.buffer.trans hfirst.buffer, hsecond.offset.trans hfirst.offset⟩

theorem moved_readBuf (len : ℕ) (io : IOStream) : Moved io (io.readBuf len).2 := by
  refine ⟨rfl, rfl, ?_, ?_⟩
  · simp [readBuf]
  · simp only [readBuf, List.length_append]
    omega

theorem moved_backup (io : IOStream) : Moved io io.backup := by
  refine ⟨rfl, rfl, ?_, ?_⟩
  · simp [backup]
  · simp [backup]

/-- A move is undone by going back to the start of the buffer. -/
theorem Moved.backup_eq (hmoved : Moved io after) : after.backup = io.backup := by
  unfold backup
  rw [hmoved.reads, hmoved.newInput, hmoved.buffer, hmoved.offset]

end IOStream

open IOStream

theorem matchMagic_moved :
    ∀ (texts : List String) (header : SampleInputHeader) (io : IOStream),
      Moved io (matchMagic texts header io).io := by
  intro texts
  induction texts with
  | nil => intro header io; exact moved_backup io
  | cons text rest ih =>
      intro header io
      unfold matchMagic
      dsimp only
      split_ifs
      · exact moved_readBuf _ io
      · exact moved_readBuf _ io
      · exact (moved_readBuf _ io).trans (ih _ _)
      · exact ih header io

theorem parseMagic_moved (header : SampleInputHeader) (io : IOStream) :
    Moved io (parseMagic header io).io := by
  unfold parseMagic
  dsimp only
  split_ifs
  · exact moved_readBuf _ io
  · exact (moved_readBuf _ io).trans (matchMagic_moved _ _ _)

theorem tagLoop_moved :
    ∀ (fuel : ℕ) (ready : Bool) (header : SampleInputHeader) (io : IOStream),
      Moved io (tagLoop fuel ready header io).io := by
  intro fuel
  induction fuel with
  | zero => intro ready header io; exact Moved.refl io
  | succ fuel ih =>
      intro ready header io
      have hread : Moved io (if ready then ([], io) else io.readBuf 1).2 := by
        cases ready
        · exact moved_readBuf 1 io
        · exact Moved.refl io
      unfold tagLoop
      dsimp only
      generalize (if ready then ([], io) else io.readBuf 1) = result at hread ⊢
      by_cases hempty : (!ready && decide (result.1 = [])) = true
      · rw [if_pos hempty]
        exact hread
      rw [if_neg hempty]
      cases findTag (header.buf ++ result.1) with
      | some row =>
          dsimp only
          by_cases hcomplete : (header.buf ++ result.1).length = (ascii row.tag).length
          · rw [if_pos hcomplete]
            exact hread
          · rw [if_neg hcomplete]
            exact hread.trans (ih _ _ _)
      | none =>
          dsimp only
          split_ifs
          · exact hread.trans (ih _ _ _)
          · exact (hread.trans (moved_readBuf 20 _)).trans (moved_backup _)
          · exact hread.trans (moved_backup _)

theorem valueLoop_moved (tagMatch : HeaderTag) :
    ∀ (fuel : ℕ) (header : SampleInputHeader) (io : IOStream),
      Moved io (valueLoop tagMatch fuel header io).io := by
  intro fuel
  induction fuel with
  | zero => intro header io; exact Moved.refl io
  | succ fuel ih =>
      intro header io
      have hread := moved_readBuf 1 io
      unfold valueLoop
      split_ifs
      · exact moved_backup io
      · generalize io.readBuf 1 = result at hread ⊢
        obtain ⟨data, after⟩ := result
        cases data with
        | nil => exact hread
        | cons c data =>
            dsimp only
            split_ifs
            · exact hread
            · exact hread.trans (ih _ _)

/-- The magic string, and the first tag behind it. -/
def parseFirst (header : SampleInputHeader) (io : IOStream) : ParseState :=
  match (parseMagic { header with stage := .magic } io).result with
  | .complete => parseTag (parseMagic { header with stage := .magic } io).header
      (parseMagic { header with stage := .magic } io).io
  | _ => parseMagic { header with stage := .magic } io

theorem parseTurn_moved (header : SampleInputHeader) (io : IOStream) :
    Moved io (parseTurn header io).io := by
  have hmagic : Moved io (parseFirst header io).io := by
    have hfirst := parseMagic_moved { header with stage := .magic } io
    unfold parseFirst
    split
    · exact hfirst.trans (tagLoop_moved _ _ _ _)
    · exact hfirst
  unfold parseTurn
  cases header.stage with
  | start => exact hmagic
  | magic => exact hmagic
  | tag => exact tagLoop_moved _ _ _ _
  | value tagMatch => exact valueLoop_moved _ _ _ _
  | done => exact Moved.refl io

theorem parseLoop_moved :
    ∀ (fuel : ℕ) (header : SampleInputHeader) (io : IOStream),
      Moved io (parseLoop fuel header io).io := by
  intro fuel
  induction fuel with
  | zero => intro header io; exact Moved.refl io
  | succ fuel ih =>
      intro header io
      have hturn := parseTurn_moved header io
      unfold parseLoop
      dsimp only
      cases (parseTurn header io).result with
      | complete =>
          dsimp only
          split_ifs
          · exact hturn
          · exact hturn.trans (ih _ _)
      | more => exact hturn
      | exception what => exact hturn

/-- **Parsing only moves `_tail`.** -/
theorem parse_moved (header : SampleInputHeader) (io : IOStream) : Moved io (header.parse io).io :=
  parseLoop_moved _ header io

end Nidas.Core
