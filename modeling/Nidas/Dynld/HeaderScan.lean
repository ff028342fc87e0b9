import Nidas.Dynld.SampleInputStream

/-!
# What an input holds

The bytes behind the input header are scanned for sample headers: a header that is
rejected is shifted by one byte, a header that is accepted is followed by its data
and then by the next header.  `scan` says which headers are met, without any of the
state that the stream keeps.  `clean` are the samples that are not next to corrupt
bytes: those whose header was not reached by a shift and that are followed by an
accepted header or by the end of the input.
-/

namespace Nidas.Dynld

open Core

/-! ## Headers -/

/-- A header that is met: rejected, or accepted and followed by its data, or accepted
with data that are cut short by the end of the input. -/
inductive Item where
  | rejected
  | accepted (samp : Sample)
  | cut
  deriving DecidableEq, Repr

/-- The sample with the data that stand at the front of `bytes`. -/
def InSample.fill (samp : InSample) (bytes : List UInt8) : Sample :=
  ⟨samp.timeTag, samp.type, samp.id, bytes.take samp.dataByteLength⟩

/-- The headers that are met in `bytes`. -/
def scan (bsf : BadSampleFilter) (bytes : List UInt8) : List Item :=
  if bytes.length < sampleHeaderSize then []
  else
    let header := SampleHeader.ofBytes (bytes.take sampleHeaderSize)
    match bsf.accept header with
    | none => .rejected :: scan bsf (bytes.drop 1)
    | some type =>
        if bytes.length < sampleHeaderSize + header.dataByteLength then [.cut]
        else
          .accepted ((InSample.ofHeader header type).fill (bytes.drop sampleHeaderSize)) ::
            scan bsf (bytes.drop (sampleHeaderSize + header.dataByteLength))
  termination_by bytes.length
  decreasing_by
    all_goals
      rw [List.length_drop]
      simp only [sampleHeaderSize] at *
      omega

/-- The data of an accepted header, and what follows them. -/
def scanData (bsf : BadSampleFilter) (samp : InSample) (bytes : List UInt8) : List Item :=
  if bytes.length < samp.dataByteLength then [.cut]
  else .accepted (samp.fill bytes) :: scan bsf (bytes.drop samp.dataByteLength)

variable {bsf : BadSampleFilter} {bytes : List UInt8}

theorem scan_of_lt (hlt : bytes.length < sampleHeaderSize) : scan bsf bytes = [] := by
  rw [scan, if_pos hlt]

theorem scan_of_none (hle : sampleHeaderSize ≤ bytes.length)
    (hnone : bsf.accept (SampleHeader.ofBytes (bytes.take sampleHeaderSize)) = none) :
    scan bsf bytes = .rejected :: scan bsf (bytes.drop 1) := by
  rw [scan, if_neg (Nat.not_lt.mpr hle)]
  dsimp only
  rw [hnone]

theorem scan_of_some {type : SampleType} (hle : sampleHeaderSize ≤ bytes.length)
    (hsome : bsf.accept (SampleHeader.ofBytes (bytes.take sampleHeaderSize)) = some type) :
    scan bsf bytes =
      scanData bsf (.ofHeader (SampleHeader.ofBytes (bytes.take sampleHeaderSize)) type)
        (bytes.drop sampleHeaderSize) := by
  rw [scan, if_neg (Nat.not_lt.mpr hle), scanData]
  dsimp only
  rw [hsome, List.length_drop, List.drop_drop, InSample.ofHeader_dataByteLength]
  dsimp only
  by_cases hcut : bytes.length <
      sampleHeaderSize + (SampleHeader.ofBytes (bytes.take sampleHeaderSize)).dataByteLength
  · rw [if_pos hcut, if_pos (by omega)]
  · rw [if_neg hcut, if_neg (by omega)]

/-! ## Clean samples -/

/-- The next header is accepted, or there is none. -/
def followed : List Item → Bool
  | .rejected :: _ => false
  | _ => true

/-- The samples that are not next to corrupt bytes; `shifted` says that the first
header has been reached by a shift. -/
def clean : Bool → List Item → List Sample
  | _, [] => []
  | _, .rejected :: rest => clean true rest
  | _, .cut :: rest => clean false rest
  | shifted, .accepted samp :: rest =>
      (if !shifted && followed rest then [samp] else []) ++ clean false rest

@[simp] theorem clean_nil (shifted : Bool) : clean shifted [] = [] := rfl

@[simp] theorem clean_rejected (shifted : Bool) (rest : List Item) :
    clean shifted (.rejected :: rest) = clean true rest := rfl

@[simp] theorem clean_cut (shifted : Bool) : clean shifted [.cut] = [] := rfl

theorem clean_accepted (shifted : Bool) (samp : Sample) (rest : List Item) :
    clean shifted (.accepted samp :: rest) =
      (if !shifted && followed rest then [samp] else []) ++ clean false rest := rfl

/-! ## The start of the input -/

/-- The number of headers that are rejected before the first one that is accepted. -/
def leading : List Item → ℕ
  | .rejected :: rest => leading rest + 1
  | _ => 0

/-- The first header that is accepted is followed by its data, and then by a header
that is accepted or by the end of the input. -/
def firstWhole : List Item → Bool
  | .rejected :: rest => firstWhole rest
  | .accepted _ :: rest => followed rest
  | _ => false

/-- How many headers have to be rejected at the start, behind an input header of
`offset` bytes, before the statistics of the first block count as those of a bad
one. -/
def badStart (offset : ℤ) : ℕ := if offset = 0 then 3 else 2

/-- After `count` rejected headers at the start: none is rejected there, or enough
for the block to count as bad, or no sample is ready behind them. -/
def StartSafe (offset : ℤ) (count : ℕ) (items : List Item) : Prop :=
  count + leading items = 0 ∨ badStart offset ≤ count + leading items ∨ firstWhole items = false

theorem StartSafe.rejected {offset : ℤ} {count : ℕ} {rest : List Item}
    (hsafe : StartSafe offset count (.rejected :: rest)) : StartSafe offset (count + 1) rest := by
  rcases hsafe with hzero | hbad | hwhole
  · exact absurd hzero (by rw [leading]; omega)
  · exact Or.inr (Or.inl (by rw [leading] at hbad; omega))
  · exact Or.inr (Or.inr hwhole)

/-- A sample behind too few rejected headers is not ready. -/
theorem StartSafe.not_followed {offset : ℤ} {count : ℕ} {samp : Sample} {rest : List Item}
    (hsafe : StartSafe offset count (.accepted samp :: rest)) (hpos : 0 < count)
    (hlt : count < badStart offset) : followed rest = false := by
  rcases hsafe with hzero | hbad | hwhole
  · omega
  · have hzero : leading (.accepted samp :: rest) = 0 := rfl
    omega
  · exact hwhole

end Nidas.Dynld
