import Mathlib.Data.Nat.Basic
import Mathlib.Order.Basic
import Nidas.Core.IOStreamWrite

/-!
# Output to files

A file takes all that it is given, unlike a socket.  Then nothing that is written is discarded: if
there is no room for the user buffers, the first attempt empties the buffer, and the second one
finds room.  After `flush` nothing waits.
-/

namespace Nidas.Core.OutputStream

/-- The channel takes what it is given, up to a length. -/
def TakesAll (channel : ℕ → WriteAnswer) (limit : ℕ) : Prop :=
  ∀ n, ∃ count, channel n = .accepted count ∧ limit ≤ count

/-- The bytes that wait are in the buffer, which is not longer than what the channel takes. -/
structure Bounded (io : OutputStream) (limit : ℕ) : Prop where
  fits : io.Fits
  buflen_le : io.buflen ≤ limit

variable {channel : ℕ → WriteAnswer} {limit : ℕ} {io : OutputStream}

theorem TakesAll.ne_error (h : TakesAll channel limit) (n : ℕ) : channel n ≠ .error := by
  obtain ⟨count, hcount, -⟩ := h n
  rw [hcount]
  exact WriteAnswer.noConfusion

theorem Bounded.length_le (h : io.Bounded limit) : io.bytes.length ≤ limit := by
  have hfits := h.fits
  have hlen := h.buflen_le
  unfold Fits at hfits
  omega

theorem writeOut_takesAll (hall : TakesAll channel limit) (h : io.Bounded limit) :
    io.writeOut channel = (true, io.advance io.bytes.length) := by
  obtain ⟨count, hcount, hle⟩ := hall io.writes
  have hmin : min count io.bytes.length = io.bytes.length :=
    min_eq_right (le_trans h.length_le hle)
  unfold writeOut
  rw [hcount]
  dsimp only
  rw [hmin]

theorem advance_length (io : OutputStream) :
    (io.advance io.bytes.length).bytes = [] ∧ (io.advance io.bytes.length).tail = 0 :=
  ⟨List.drop_length, if_pos le_rfl⟩

/-! ## The length of the buffer -/

@[simp]
theorem buflen_makeSpace (tlen : ℕ) (io : OutputStream) :
    (io.makeSpace tlen).buflen = io.buflen := by
  unfold makeSpace
  split_ifs <;> rfl

@[simp]
theorem buflen_writeOut (channel : ℕ → WriteAnswer) (io : OutputStream) :
    (io.writeOut channel).2.buflen = io.buflen := by
  unfold writeOut
  cases channel io.writes <;> rfl

@[simp]
theorem buflen_writeIfNeeded (channel : ℕ → WriteAnswer) (flush waiting : Bool)
    (io : OutputStream) : (io.writeIfNeeded channel flush waiting).io.buflen = io.buflen := by
  unfold writeIfNeeded
  split_ifs
  · exact buflen_writeOut channel io
  · rfl

@[simp]
theorem buflen_attempt (channel : ℕ → WriteAnswer) (iov : List (List UInt8)) (flush waiting : Bool)
    (io : OutputStream) : (io.attempt channel iov flush waiting).io.buflen = io.buflen := by
  unfold attempt
  dsimp only
  split_ifs
  · rw [buflen_writeIfNeeded]
    exact buflen_makeSpace _ io
  · rw [buflen_writeIfNeeded]
    exact buflen_makeSpace _ io

theorem buflen_attempts (channel : ℕ → WriteAnswer) (iov : List (List UInt8)) (flush : Bool)
    (left : ℕ) (waiting : Bool) (io : OutputStream) :
    (attempts channel iov flush left waiting io).2.buflen = io.buflen := by
  induction left generalizing waiting io with
  | zero => rfl
  | succ left ih =>
      unfold attempts
      dsimp only
      split_ifs
      · exact buflen_attempt ..
      · rw [ih]
        exact buflen_attempt ..
      · exact buflen_attempt ..

theorem Bounded.write (h : io.Bounded limit) (channel : ℕ → WriteAnswer) {iov : List (List UInt8)}
    (hiov : totalLength iov ≤ limit) (flush : Bool) :
    (io.write channel iov flush).2.Bounded limit := by
  refine ⟨h.fits.write channel iov flush, ?_⟩
  unfold OutputStream.write
  dsimp only
  rw [buflen_attempts]
  split_ifs
  · exact hiov
  · exact h.buflen_le

theorem buflen_flushLoop (channel : ℕ → WriteAnswer) (left : ℕ) (io : OutputStream) :
    (flushLoop channel left io).2.buflen = io.buflen := by
  induction left generalizing io with
  | zero => rfl
  | succ left ih =>
      unfold flushLoop
      split_ifs
      · rfl
      · have hout := buflen_writeOut channel io
        generalize io.writeOut channel = answer at hout ⊢
        obtain ⟨_ | _, out⟩ := answer
        · exact hout
        · exact (ih out).trans hout

theorem Bounded.flush (h : io.Bounded limit) (channel : ℕ → WriteAnswer) :
    (io.flush channel).2.Bounded limit :=
  ⟨h.fits.flushLoop 5, (buflen_flushLoop channel 5 io).le.trans h.buflen_le⟩

/-! ## Nothing is discarded -/

/-- When the user buffers still wait, the buffer has been emptied for them. -/
theorem attempt_waiting_empty (hall : TakesAll channel limit) (h : io.Bounded limit)
    {iov : List (List UInt8)} {flush waiting : Bool}
    (hwaiting : (io.attempt channel iov flush waiting).waiting = true) :
    (io.attempt channel iov flush waiting).io.bytes = [] ∧
      (io.attempt channel iov flush waiting).io.tail = 0 := by
  have hbefore := attempt_waiting_eq hwaiting
  subst hbefore
  unfold attempt at hwaiting ⊢
  dsimp only at hwaiting ⊢
  split_ifs at hwaiting ⊢ with hspace
  · rw [writeIfNeeded_waiting] at hwaiting
    cases hwaiting
  · have hmade : (io.makeSpace (totalLength iov)).Bounded limit :=
      ⟨h.fits.makeSpace _, (buflen_makeSpace _ io).le.trans h.buflen_le⟩
    unfold writeIfNeeded
    rw [if_pos (.inl rfl), writeOut_takesAll hall hmade]
    exact advance_length _

/-- An empty buffer has room for the user buffers. -/
theorem attempt_of_empty {iov : List (List UInt8)} (hbytes : io.bytes = []) (htail : io.tail = 0)
    (hiov : totalLength iov ≤ io.buflen) (flush waiting : Bool) :
    (io.attempt channel iov flush waiting).waiting = false := by
  have hmade : io.makeSpace (totalLength iov) = io := by
    unfold makeSpace
    rw [if_neg]
    rintro ⟨-, -, hne⟩
    exact hne htail
  have hspace : totalLength iov ≤ io.space := by
    unfold space
    rw [hbytes, htail]
    exact hiov
  unfold attempt
  dsimp only
  rw [hmade, if_pos hspace]
  exact writeIfNeeded_waiting ..

theorem attempts_takesAll (hall : TakesAll channel limit) (h : io.Bounded limit)
    {iov : List (List UInt8)} (hiov : totalLength iov ≤ io.buflen) (flush waiting : Bool) :
    (attempts channel iov flush 2 waiting io).1 = some (totalLength iov) := by
  have hsecond (hwaiting : (io.attempt channel iov flush waiting).waiting = true) :
      ((io.attempt channel iov flush waiting).io.attempt channel iov flush true).waiting =
        false := by
    obtain ⟨hbytes, htail⟩ := attempt_waiting_empty hall h hwaiting
    exact attempt_of_empty hbytes htail (by rwa [buflen_attempt]) flush true
  unfold attempts
  simp only [attempt_thrown hall.ne_error, Bool.false_eq_true, ↓reduceIte]
  split_ifs with hwaiting
  · unfold attempts
    simp only [attempt_thrown hall.ne_error, Bool.false_eq_true, ↓reduceIte]
    rw [hwaiting, hsecond hwaiting]
    rfl
  · rfl

/-- **A write to a file is not discarded.** -/
theorem write_takesAll (hall : TakesAll channel limit) (h : io.Bounded limit)
    (iov : List (List UInt8)) (hiov : totalLength iov ≤ limit) (flush : Bool) :
    (io.write channel iov flush).1 = some (totalLength iov) ∧
      (io.write channel iov flush).2.contents = io.contents ++ iov.flatten := by
  have hresult : (io.write channel iov flush).1 = some (totalLength iov) := by
    unfold OutputStream.write
    dsimp only
    split_ifs with hlen
    · exact attempts_takesAll hall ⟨fits_reallocateBuffer _ io, hiov⟩ le_rfl flush _
    · exact attempts_takesAll hall h (by omega) flush _
  refine ⟨hresult, ?_⟩
  obtain ⟨-, hcontents⟩ | ⟨hzero, hcontents⟩ := write_atomic hall.ne_error iov flush h.fits
  · exact hcontents
  · have hlength : iov.flatten.length = 0 := by
      rw [← totalLength_eq]
      exact Option.some_inj.mp (hresult.symm.trans hzero)
    rw [hcontents, List.eq_nil_of_length_eq_zero hlength, List.append_nil]

/-- After `flush` everything has been sent. -/
theorem flush_takesAll (hall : TakesAll channel limit) (h : io.Bounded limit) :
    (io.flush channel).1 = true ∧ (io.flush channel).2.sent = io.contents := by
  unfold OutputStream.flush flushLoop
  split_ifs with hbytes
  · refine ⟨rfl, ?_⟩
    unfold contents
    rw [hbytes, List.append_nil]
  · rw [writeOut_takesAll hall h]
    dsimp only
    unfold flushLoop
    rw [if_pos (advance_length io).1]
    refine ⟨rfl, ?_⟩
    unfold advance contents
    dsimp only
    rw [List.take_length]

end Nidas.Core.OutputStream
