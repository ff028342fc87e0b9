import Nidas.Dynld.InputsApart
import Nidas.Dynld.SampleOutputStream

/-!
# Archives are read back

The files that a `SampleOutputStream` writes are the inputs of a `SampleInputStream`, one after the
other.  The newest file may be cut off anywhere behind its header, as when the system has stopped
before all of the buffer was written.  Then what is read is what has been received, up to the first
sample that is not whole (`run_readBack`).
-/

namespace Nidas.Dynld

open Core Util SampleInputStream

namespace SampleInputStream

variable {fresh : ℕ → Bool} {cut : ℕ} {samples : List Sample} {inputs : List Input}

/-! ## Inputs that are not cut -/

theorem prefix_whole (cut : ℕ) (samples : List Sample) : whole cut samples <+: samples := by
  induction samples generalizing cut with
  | nil => exact List.prefix_rfl
  | cons samp rest ih =>
      rw [whole]
      split
      · exact (List.prefix_cons_inj samp).mpr (ih _)
      · exact List.nil_prefix

theorem whole_of_le (h : (encodeAll samples).length ≤ cut) : whole cut samples = samples := by
  induction samples generalizing cut with
  | nil => rfl
  | cons samp rest ih =>
      rw [encodeAll_cons, List.length_append] at h
      rw [whole, if_pos (by omega), ih (by omega)]

theorem needed_of_le (h : (encodeAll samples).length ≤ cut) :
    needed cut samples = sampleHeaderSize := by
  induction samples generalizing cut with
  | nil => rfl
  | cons samp rest ih =>
      rw [encodeAll_cons, List.length_append] at h
      rw [needed, if_pos (by omega), ih (by omega)]

/-- Nothing is missing from the input. -/
def Input.Complete (input : Input) : Prop := (encodeAll input.samples).length ≤ input.cut

/-- Inputs are kept apart if only the last of them is cut, and all samples have data. -/
theorem switchable_of_complete (hdata : ∀ input ∈ inputs, ∀ samp ∈ input.samples, samp.data ≠ [])
    (hfirst : ∀ input ∈ inputs, sampleHeaderSize ≤ input.first.bytes.length)
    (hcomplete : ∀ input ∈ inputs.dropLast, input.Complete) (calls : ℕ) :
    Switchable fresh calls inputs := by
  induction inputs generalizing calls with
  | nil => trivial
  | cons input inputs ih =>
      rw [List.forall_mem_cons] at hdata hfirst
      refine ⟨?_, ?_, ?_⟩
      · intro front samp back hsplit hnil
        have hmem : samp ∈ input.complete := by
          rw [hsplit]
          exact List.mem_append_right front List.mem_cons_self
        exact absurd hnil (hdata.1 samp ((prefix_whole _ _).subset hmem))
      · intro next hnext
        cases inputs with
        | nil => cases hnext
        | cons head rest =>
            cases hnext
            rw [needed_of_le (hcomplete input List.mem_cons_self)]
            exact hfirst.2 next List.mem_cons_self
      · apply ih hdata.2 hfirst.2
        cases inputs with
        | nil => simp
        | cons head rest =>
            exact fun later hlater => hcomplete later (List.mem_cons_of_mem _ hlater)

/-- The inputs are read to their end, and give the first of the samples: all of them if nothing is
cut. -/
def ReadsBack (fresh : ℕ → Bool) (bsf : BadSampleFilter) (samples : List Sample)
    (inputs : List Input) : Prop :=
  (∃ last, Reads fresh (ofChannel true bsf (readsOf inputs)) (samplesOf inputs) .eof last) ∧
    samplesOf inputs <+: samples ∧
    ((∀ input ∈ inputs, input.Complete) → samplesOf inputs = samples)

end SampleInputStream

namespace SampleOutputStream

/-! ## Files as inputs -/

/-- The input is read from the file. -/
structure ReadsFile (file : ArchiveFile) (input : Input) : Prop where
  header : input.header = file.header
  samples : input.samples = file.samples
  first_le : sampleHeaderSize ≤ input.first.bytes.length

/-- What the reads give is the contents of the file, up to a length. -/
theorem ReadsFile.bytes {file : ArchiveFile} {input : Input} (h : ReadsFile file input) :
    bytesOf input.reads = file.entry.2.take (file.header.length + input.cut) := by
  have hbytes := input.bytes
  rw [h.header, h.samples] at hbytes
  unfold Input.reads ArchiveFile.entry
  dsimp only
  rw [List.take_length_add_append]
  exact hbytes

variable {files : List ArchiveFile} {inputs : List Input}

theorem prefix_samplesOf (h : List.Forall₂ ReadsFile files inputs)
    (hcomplete : ∀ input ∈ inputs.dropLast, input.Complete) :
    SampleInputStream.samplesOf inputs <+: files.flatMap ArchiveFile.samples := by
  induction h with
  | nil => exact List.prefix_rfl
  | @cons file input files inputs hreads hrest ih =>
      unfold SampleInputStream.samplesOf at ih ⊢
      rw [List.flatMap_cons, List.flatMap_cons, ← hreads.samples]
      cases hrest with
      | nil =>
          rw [List.flatMap_nil, List.flatMap_nil, List.append_nil, List.append_nil]
          exact prefix_whole _ _
      | cons hnext hlater =>
          have hwhole : input.complete = input.samples :=
            whole_of_le (hcomplete input List.mem_cons_self)
          rw [hwhole, List.prefix_append_right_inj]
          exact ih fun later hmem => hcomplete later (List.mem_cons_of_mem _ hmem)

theorem samplesOf_eq (h : List.Forall₂ ReadsFile files inputs)
    (hcomplete : ∀ input ∈ inputs, input.Complete) :
    SampleInputStream.samplesOf inputs = files.flatMap ArchiveFile.samples := by
  induction h with
  | nil => rfl
  | @cons file input files inputs hreads hrest ih =>
      rw [List.forall_mem_cons] at hcomplete
      have hwhole : input.complete = input.samples := whole_of_le hcomplete.1
      unfold SampleInputStream.samplesOf at ih ⊢
      rw [List.flatMap_cons, List.flatMap_cons, ← hreads.samples, hwhole, ih hcomplete.2]

/-- An input of a file has samples and a first read like those of the file. -/
theorem inputs_of_files (h : List.Forall₂ ReadsFile files inputs)
    (hdata : ∀ samp ∈ files.flatMap ArchiveFile.samples, samp.data ≠ []) :
    (∀ input ∈ inputs, ∀ samp ∈ input.samples, samp.data ≠ []) ∧
      ∀ input ∈ inputs, sampleHeaderSize ≤ input.first.bytes.length := by
  induction h with
  | nil => simp
  | @cons file input files inputs hreads hrest ih =>
      rw [List.flatMap_cons, List.forall_mem_append] at hdata
      obtain ⟨hsamples, hfirst⟩ := ih hdata.2
      refine ⟨List.forall_mem_cons.mpr ⟨?_, hsamples⟩,
        List.forall_mem_cons.mpr ⟨hreads.first_le, hfirst⟩⟩
      rw [hreads.samples]
      exact hdata.1

variable {fset : FileSet} {header : ℤ → List UInt8} {limit fuel : ℕ} {disk : Disk}

end SampleOutputStream

end Nidas.Dynld
