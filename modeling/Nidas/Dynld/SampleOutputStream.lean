import Nidas.Core.SampleHeader
import Nidas.Core.WholeWrites
import Nidas.Util.FileSet

/-!
# Writing archives

`SampleOutputStream` (`dynld/SampleOutputStream.cc`, `core/SampleOutput.cc`) writes samples to files
that are named by times.  The first sample whose time has come makes it flush the buffer, open the
next file and write a header; everything goes through the buffer of an `IOStream`, which lives
longer than a file.

What is to be kept is that each file has a header and whole samples behind it, although the buffer
does not know of files.  That is so if a `flush` leaves nothing behind, as with a file
(`run_archives`).
-/

namespace Nidas.Dynld

open Core Util

/-- What the file system answers: to `open`, and to `write`. -/
structure Disk where
  opens : ℕ → CreateAnswer
  writes : ℕ → WriteAnswer

/-- The members of a `SampleOutputStream` with its `FileSet`, and what has been put into the files:
`file` is the open one with the number of bytes that had been sent before it, `closed` are the ones
before it with their contents, the newest first.  `header` is what `sendHeader` writes. -/
structure SampleOutputStream where
  fset : FileSet
  header : ℤ → List UInt8
  maxUsecs : ℤ
  io : OutputStream
  nextFileTime : ℤ := longLongMin
  lastFlushTT : ℤ := 0
  discarded : ℕ := 0
  opened : ℕ := 0
  file : Option (FileSet.Created × ℕ) := none
  closed : List (FileSet.Created × List UInt8) := []

namespace SampleOutputStream

/-! ## The code -/

/-- `closeFile`: what has been sent to the file is its contents. -/
def closeFile (out : SampleOutputStream) : List (FileSet.Created × List UInt8) :=
  match out.file with
  | none => out.closed
  | some (made, start) => (made, out.io.sent.drop start) :: out.closed

/-- `SampleOutputBase::createNextFile`; none inside is an `IOException`, none outside is a recursion
of `createFile` beyond its bound. -/
def createNextFile (disk : Disk) (fuel : ℕ) (tt : ℤ) (out : SampleOutputStream) :
    Option (Option SampleOutputStream) :=
  -- the very first file we use an exact time in the name
  let exact := decide (out.nextFileTime = longLongMin)
  (out.fset.createFile disk.opens fuel tt exact out.opened).map fun answer =>
    answer.1.bind fun made =>
      let written := out.io.write disk.writes [out.header tt] false
      written.1.map fun _ =>
        { out with
          nextFileTime := made.next
          opened := answer.2
          file := some (made, out.io.sent.length)
          closed := out.closeFile
          io := written.2 }

/-- `SampleOutputStream::write`, and the part of `receive` around it. -/
def writeSample (disk : Disk) (samp : Sample) (out : SampleOutputStream) :
    Option SampleOutputStream :=
  let streamFlush := decide (samp.timeTag - out.lastFlushTT > out.maxUsecs)
  let written := out.io.write disk.writes [samp.header.toBytes, samp.data] streamFlush
  written.1.map fun count =>
    { out with
      io := written.2
      lastFlushTT := if streamFlush then samp.timeTag else out.lastFlushTT
      discarded := if count = 0 then out.discarded + 1 else out.discarded }

/-- The part of `receive` that looks at the time tag. -/
def openFile (disk : Disk) (fuel : ℕ) (samp : Sample) (out : SampleOutputStream) :
    Option (Option SampleOutputStream) :=
  if samp.timeTag ≥ out.nextFileTime then
    let flushed := out.io.flush disk.writes
    if flushed.1 then createNextFile disk fuel samp.timeTag { out with io := flushed.2 }
    else some none
  else some (some out)

/-- `SampleOutputStream::receive`; none inside is the disconnect after an `IOException`. -/
def receive (disk : Disk) (fuel : ℕ) (samp : Sample) (out : SampleOutputStream) :
    Option (Option SampleOutputStream) :=
  (out.openFile disk fuel samp).map fun answer => answer.bind (writeSample disk samp)

/-- `SampleOutputStream::flush`, which only logs an exception. -/
def flush (disk : Disk) (out : SampleOutputStream) : SampleOutputStream :=
  { out with io := (out.io.flush disk.writes).2 }

/-- A call of a client. -/
inductive Call where
  | receive (samp : Sample)
  | flush
  deriving DecidableEq, Repr

/-- One call. -/
def call (disk : Disk) (fuel : ℕ) (out : SampleOutputStream) :
    Call → Option (Option SampleOutputStream)
  | .receive samp => out.receive disk fuel samp
  | .flush => some (some (out.flush disk))

/-- The calls, up to a disconnect. -/
def run (disk : Disk) (fuel : ℕ) : List Call → SampleOutputStream →
    Option (Option SampleOutputStream)
  | [], out => some (some out)
  | next :: calls, out =>
      match out.call disk fuel next with
      | some (some out) => run disk fuel calls out
      | stopped => stopped

/-- The samples that have been received. -/
def received : List Call → List Sample
  | [] => []
  | .receive samp :: calls => samp :: received calls
  | .flush :: calls => received calls

/-- The files with their contents, the newest first; what waits in the buffer is for the open
one. -/
def archived (out : SampleOutputStream) : List (FileSet.Created × List UInt8) :=
  match out.file with
  | none => out.closed
  | some (made, start) => (made, out.io.contents.drop start) :: out.closed

/-! ## Archives -/

/-- A file of an archive. -/
structure ArchiveFile where
  made : FileSet.Created
  header : List UInt8
  samples : List Sample

/-- The file and its contents. -/
def ArchiveFile.entry (file : ArchiveFile) : FileSet.Created × List UInt8 :=
  (file.made, file.header ++ file.samples.flatMap Sample.encode)

/-- The time that the next file starts at. -/
def nextStart : List ArchiveFile → ℤ
  | [] => longLongMin
  | file :: _ => file.made.next

/-- The files have those samples, as they are sorted into files by `receive`. -/
inductive Archives (fset : FileSet) (header : ℤ → List UInt8) :
    List Sample → List ArchiveFile → Prop
  | empty : Archives fset header [] []
  | newFile {samples : List Sample} {files : List ArchiveFile} (made : FileSet.Created)
      (samp : Sample) (hsamples : Archives fset header samples files)
      (hstart : nextStart files ≤ samp.timeTag)
      (hnext : made.next = fset.nextFileTime made.time)
      (hperiod : fset.nextFileTime samp.timeTag ≤ made.next) :
      Archives fset header (samples ++ [samp]) (⟨made, header samp.timeTag, [samp]⟩ :: files)
  | sameFile {samples : List Sample} {files : List ArchiveFile} {file : ArchiveFile}
      (samp : Sample) (hsamples : Archives fset header samples (file :: files))
      (hstart : samp.timeTag < file.made.next) :
      Archives fset header (samples ++ [samp])
        ({ file with samples := file.samples ++ [samp] } :: files)

namespace Archives

variable {fset : FileSet} {header : ℤ → List UInt8} {samples : List Sample}
  {files : List ArchiveFile}

/-- No sample is lost, and their order is kept. -/
theorem flatMap_samples (h : Archives fset header samples files) :
    files.reverse.flatMap ArchiveFile.samples = samples := by
  induction h with
  | empty => rfl
  | newFile made samp hsamples hstart hnext hperiod ih =>
      rw [List.reverse_cons, List.flatMap_append, ih]
      simp
  | sameFile samp hsamples hstart ih =>
      rw [List.reverse_cons, List.flatMap_append] at ih ⊢
      rw [← ih]
      simp

theorem next_eq (h : Archives fset header samples files) :
    ∀ file ∈ files, file.made.next = fset.nextFileTime file.made.time := by
  induction h with
  | empty => simp
  | newFile made samp hsamples hstart hnext hperiod ih =>
      exact List.forall_mem_cons.mpr ⟨hnext, ih⟩
  | sameFile samp hsamples hstart ih =>
      rw [List.forall_mem_cons] at ih ⊢
      exact ih

/-- A sample is in a file whose period is not over. -/
theorem lt_next (hlen : 0 < fset.fileLength) (h : Archives fset header samples files)
    (hsamples : ∀ samp ∈ samples, samp.timeTag < longLongMax) :
    ∀ file ∈ files, ∀ samp ∈ file.samples, samp.timeTag < file.made.next := by
  induction h with
  | empty => simp
  | newFile made samp hprevious hstart hnext hperiod ih =>
      rw [List.forall_mem_append, List.forall_mem_singleton] at hsamples
      refine List.forall_mem_cons.mpr ⟨?_, ih hsamples.1⟩
      exact List.forall_mem_singleton.mpr
        ((FileSet.lt_nextFileTime hlen hsamples.2).trans_le hperiod)
  | sameFile samp hprevious hstart ih =>
      rw [List.forall_mem_append] at hsamples
      have hfiles := ih hsamples.1
      rw [List.forall_mem_cons] at hfiles ⊢
      refine ⟨?_, hfiles.2⟩
      rw [List.forall_mem_append, List.forall_mem_singleton]
      exact ⟨hfiles.1, hstart⟩

/-- The times in the names go up, so that no name is used again. -/
theorem names_increase (hlen : 0 < fset.fileLength) (h : Archives fset header samples files)
    (hsamples : ∀ samp ∈ samples, samp.timeTag < longLongMax) :
    files.Pairwise (fun later file => file.made.time < later.made.time) := by
  -- the ends of the periods go up as well, and with the newest file they are compared
  suffices hboth : files.Pairwise (fun later file => file.made.time < later.made.time) ∧
      ∀ file ∈ files, file.made.next ≤ nextStart files from hboth.1
  induction h with
  | empty => exact ⟨List.Pairwise.nil, by simp⟩
  | @newFile _ files made samp hprevious hstart hnext hperiod ih =>
      rw [List.forall_mem_append, List.forall_mem_singleton] at hsamples
      obtain ⟨hpairs, hends⟩ := ih hsamples.1
      have hlater : nextStart files < made.next :=
        hstart.trans_lt ((FileSet.lt_nextFileTime hlen hsamples.2).trans_le hperiod)
      refine ⟨List.pairwise_cons.mpr ⟨fun file hfile => ?_, hpairs⟩,
        List.forall_mem_cons.mpr ⟨le_rfl, fun file hfile => (hends file hfile).trans hlater.le⟩⟩
      by_contra hnot
      have hmono := FileSet.nextFileTime_mono hlen (not_lt.mp hnot)
      rw [← hnext, ← hprevious.next_eq file hfile] at hmono
      exact absurd ((hmono.trans (hends file hfile)).trans_lt hlater) (lt_irrefl _)
  | sameFile samp hprevious hstart ih =>
      rw [List.forall_mem_append] at hsamples
      obtain ⟨hpairs, hends⟩ := ih hsamples.1
      rw [List.pairwise_cons] at hpairs ⊢
      rw [List.forall_mem_cons] at hends ⊢
      exact ⟨hpairs, hends⟩

end Archives

/-! ## The files are an archive -/

/-- The open file and the closed ones have the contents of those files. -/
def Holds (out : SampleOutputStream) : List ArchiveFile → Prop
  | [] => out.file = none ∧ out.closed = []
  | file :: files =>
      out.closed = files.map ArchiveFile.entry ∧
        ∃ start ≤ out.io.contents.length, out.file = some (file.made, start) ∧
          out.io.contents.drop start = file.entry.2

/-- What holds between calls; `limit` is a length that the channel takes. -/
structure Stores (fset : FileSet) (header : ℤ → List UInt8) (limit : ℕ)
    (files : List ArchiveFile) (out : SampleOutputStream) : Prop where
  sameSet : out.fset = fset
  sameHeader : out.header = header
  bounded : out.io.Bounded limit
  next : out.nextFileTime = nextStart files
  holds : out.Holds files
  kept : out.discarded = 0

/-- The disk takes what it is given, and finds a name that is not taken. -/
structure GoodDisk (disk : Disk) (limit fuel : ℕ) : Prop where
  takesAll : OutputStream.TakesAll disk.writes limit
  creates : FileSet.Creates disk.opens fuel

/-- A sample that fits the limit, with a time that the code can tell from the largest one. -/
structure Fitting (limit : ℕ) (samp : Sample) : Prop where
  timeTag_ge : longLongMin ≤ samp.timeTag
  timeTag_lt : samp.timeTag < longLongMax
  length_le : sampleHeaderSize + samp.data.length ≤ limit

variable {fset : FileSet} {header : ℤ → List UInt8} {limit fuel : ℕ} {samples : List Sample}
  {files : List ArchiveFile} {out : SampleOutputStream} {disk : Disk}

theorem archived_of_holds (h : out.Holds files) :
    out.archived = files.map ArchiveFile.entry := by
  unfold archived
  cases files with
  | nil =>
      obtain ⟨hfile, hclosed⟩ := h
      rw [hfile, hclosed]
      rfl
  | cons file files =>
      obtain ⟨hclosed, start, -, hfile, hcontents⟩ := h
      rw [hfile, hclosed]
      dsimp only
      rw [hcontents]
      rfl

theorem Holds.congr {out' : SampleOutputStream} (h : out.Holds files) (hfile : out'.file = out.file)
    (hclosed : out'.closed = out.closed) (hcontents : out'.io.contents = out.io.contents) :
    out'.Holds files := by
  cases files with
  | nil => exact ⟨hfile.trans h.1, hclosed.trans h.2⟩
  | cons file files =>
      unfold Holds at h ⊢
      rw [hfile, hclosed, hcontents]
      exact h

/-- Flushing changes nothing in the files with what waits for them. -/
theorem Stores.flush (h : Stores fset header limit files out) (disk : Disk) :
    Stores fset header limit files (out.flush disk) := by
  have hcontents : (out.flush disk).io.contents = out.io.contents :=
    OutputStream.contents_flushLoop disk.writes 5 out.io
  exact ⟨h.sameSet, h.sameHeader, h.bounded.flush disk.writes, h.next,
    h.holds.congr rfl rfl hcontents, h.kept⟩

/-- What is written is behind the contents of the open file. -/
theorem drop_contents {start : ℕ} {io io' : OutputStream} {bytes : List UInt8}
    (hstart : start ≤ io.contents.length) (h : io'.contents = io.contents ++ bytes) :
    io'.contents.drop start = io.contents.drop start ++ bytes := by
  rw [h, List.drop_append_of_le_length hstart]

theorem Stores.writeSample {file : ArchiveFile} (hdisk : GoodDisk disk limit fuel) {samp : Sample}
    (hfitting : Fitting limit samp) (h : Stores fset header limit (file :: files) out) :
    ∃ out', out.writeSample disk samp = some out' ∧
      Stores fset header limit ({ file with samples := file.samples ++ [samp] } :: files) out' := by
  have htotal : OutputStream.totalLength [samp.header.toBytes, samp.data] =
      sampleHeaderSize + samp.data.length := by
    rw [OutputStream.totalLength_eq, List.flatten_cons, List.flatten_singleton,
      ← Sample.length_encode]
    rfl
  have hpositive : OutputStream.totalLength [samp.header.toBytes, samp.data] ≠ 0 := by
    rw [htotal]
    unfold sampleHeaderSize
    omega
  have hlimit : OutputStream.totalLength [samp.header.toBytes, samp.data] ≤ limit :=
    htotal.le.trans hfitting.length_le
  obtain ⟨hresult, hcontents⟩ := OutputStream.write_takesAll hdisk.takesAll h.bounded _ hlimit
    (decide (samp.timeTag - out.lastFlushTT > out.maxUsecs))
  have hencode : [samp.header.toBytes, samp.data].flatten = samp.encode := by
    rw [List.flatten_cons, List.flatten_singleton]
    rfl
  rw [hencode] at hcontents
  obtain ⟨hclosed, start, hle, hfile, hdrop⟩ := h.holds
  unfold SampleOutputStream.writeSample
  dsimp only
  rw [hresult]
  refine ⟨_, rfl, h.sameSet, h.sameHeader, h.bounded.write _ hlimit _, h.next,
    ⟨hclosed, start, ?_, hfile, ?_⟩, ?_⟩
  · rw [hcontents, List.length_append]
    exact Nat.le_add_right_of_le hle
  · rw [drop_contents hle hcontents, hdrop]
    unfold ArchiveFile.entry
    rw [List.flatMap_append, List.flatMap_singleton, List.append_assoc]
  · exact (if_neg hpositive).trans h.kept

/-- When nothing waits, the contents of the closed files are whole. -/
theorem Stores.createNextFile (hfields : fset.timeFields = true) (hlen : 0 < fset.fileLength)
    (hheader : ∀ tt, (header tt).length ≤ limit) (hdisk : GoodDisk disk limit fuel)
    (h : Stores fset header limit files out) (hsent : out.io.sent = out.io.contents) (tt : ℤ) :
    ∃ made out', out.createNextFile disk fuel tt = some (some out') ∧
      Stores fset header limit (⟨made, header tt, []⟩ :: files) out' ∧
      made.next = fset.nextFileTime made.time ∧ fset.nextFileTime tt ≤ made.next := by
  obtain ⟨made, opened', hcreate⟩ := FileSet.createFile_of_creates hfields hdisk.creates tt
    (decide (out.nextFileTime = longLongMin)) out.opened
  obtain ⟨hnext, hperiod⟩ := FileSet.next_of_createFile hlen hcreate
  have htotal : OutputStream.totalLength [header tt] = (header tt).length := by
    rw [OutputStream.totalLength_eq, List.flatten_singleton]
  have hlimit : OutputStream.totalLength [header tt] ≤ limit := htotal.le.trans (hheader tt)
  obtain ⟨hresult, hcontents⟩ := OutputStream.write_takesAll hdisk.takesAll h.bounded _ hlimit false
  rw [List.flatten_singleton] at hcontents
  have hclosed : out.closeFile = files.map ArchiveFile.entry := by
    rw [← archived_of_holds h.holds]
    unfold closeFile archived
    rw [hsent]
  unfold SampleOutputStream.createNextFile
  dsimp only
  rw [h.sameSet, hcreate, h.sameHeader, Option.map_some, Option.bind_some, hresult]
  refine ⟨made, _, rfl, ⟨rfl, rfl, h.bounded.write _ hlimit _, rfl,
    ⟨hclosed, out.io.sent.length, ?_, rfl, ?_⟩, h.kept⟩, hnext, hperiod⟩
  · rw [hcontents, hsent, List.length_append]
    exact Nat.le_add_right _ _
  · rw [drop_contents (le_of_eq (congrArg List.length hsent)) hcontents, ← hsent, List.drop_length]
    unfold ArchiveFile.entry
    rw [List.flatMap_nil, List.append_nil, List.nil_append]

/-- **A sample is received into a file of the archive**, the open one or a new one. -/
theorem Stores.receive (hfields : fset.timeFields = true) (hlen : 0 < fset.fileLength)
    (hheader : ∀ tt, (header tt).length ≤ limit) (hdisk : GoodDisk disk limit fuel) {samp : Sample}
    (hfitting : Fitting limit samp) (h : Stores fset header limit files out)
    (harchives : Archives fset header samples files) :
    ∃ out' files', out.receive disk fuel samp = some (some out') ∧
      Stores fset header limit files' out' ∧ Archives fset header (samples ++ [samp]) files' := by
  unfold SampleOutputStream.receive SampleOutputStream.openFile
  by_cases hstart : samp.timeTag ≥ out.nextFileTime
  · rw [if_pos hstart]
    obtain ⟨hflushed, hsent⟩ := OutputStream.flush_takesAll hdisk.takesAll h.bounded
    have hcontents := OutputStream.contents_flushLoop disk.writes 5 out.io
    have hready : Stores fset header limit files
        { out with io := (out.io.flush disk.writes).2 } := h.flush disk
    obtain ⟨made, created, hcreated, hstores, hnext, hperiod⟩ :=
      hready.createNextFile hfields hlen hheader hdisk (hsent.trans hcontents.symm) samp.timeTag
    obtain ⟨out', hwritten, hstores'⟩ := hstores.writeSample hdisk hfitting
    rw [h.next] at hstart
    refine ⟨out', _, ?_, hstores', .newFile made samp harchives hstart hnext hperiod⟩
    dsimp only
    rw [if_pos hflushed, hcreated]
    exact congrArg some hwritten
  · rw [if_neg hstart]
    rw [h.next, ge_iff_le, not_le] at hstart
    cases files with
    | nil => exact absurd hfitting.timeTag_ge (not_le.mpr hstart)
    | cons file files =>
        obtain ⟨out', hwritten, hstores'⟩ := h.writeSample hdisk hfitting
        exact ⟨out', _, congrArg some hwritten, hstores', .sameFile samp harchives hstart⟩

/-! ## Whole runs -/

theorem Stores.run (hfields : fset.timeFields = true) (hlen : 0 < fset.fileLength)
    (hheader : ∀ tt, (header tt).length ≤ limit) (hdisk : GoodDisk disk limit fuel)
    (calls : List Call) (hfitting : ∀ samp ∈ received calls, Fitting limit samp)
    (h : Stores fset header limit files out) (harchives : Archives fset header samples files) :
    ∃ out' files', run disk fuel calls out = some (some out') ∧
      Stores fset header limit files' out' ∧
      Archives fset header (samples ++ received calls) files' := by
  induction calls generalizing out files samples with
  | nil =>
      refine ⟨out, files, rfl, h, ?_⟩
      unfold received
      rwa [List.append_nil]
  | cons next calls ih =>
      cases next with
      | receive samp =>
          unfold received at hfitting ⊢
          rw [List.forall_mem_cons] at hfitting
          obtain ⟨out', files', hreceive, hstores, harchives'⟩ :=
            h.receive hfields hlen hheader hdisk hfitting.1 harchives
          obtain ⟨last, lastFiles, hrun, hlast⟩ := ih hfitting.2 hstores harchives'
          rw [List.append_assoc, List.singleton_append] at hlast
          refine ⟨last, lastFiles, ?_, hlast⟩
          unfold SampleOutputStream.run call
          dsimp only
          rw [hreceive]
          exact hrun
      | flush => exact ih hfitting (h.flush disk) harchives

/-- A stream that is connected to a file set, before its first sample. -/
def connected (fset : FileSet) (header : ℤ → List UInt8) (maxUsecs : ℤ) (blen : ℕ) :
    SampleOutputStream where
  fset := fset
  header := header
  maxUsecs := maxUsecs
  io := OutputStream.create blen

theorem stores_connected (fset : FileSet) (header : ℤ → List UInt8) (maxUsecs : ℤ) {blen limit : ℕ}
    (hblen : blen * 2 ≤ limit) :
    Stores fset header limit [] (connected fset header maxUsecs blen) :=
  ⟨rfl, rfl, ⟨Nat.zero_le _, hblen⟩, rfl, ⟨rfl, rfl⟩, rfl⟩

/-- **A run writes an archive.**  Whatever samples are received, and with any flushes between them,
each file has a header and then whole samples; the samples of all files are those that were
received, in their order; a sample is in a file whose period is not over; and the times in the names
go up. -/
theorem run_archives (hfields : fset.timeFields = true) (hlen : 0 < fset.fileLength)
    (hheader : ∀ tt, (header tt).length ≤ limit) (hdisk : GoodDisk disk limit fuel)
    {blen : ℕ} (hblen : blen * 2 ≤ limit) (maxUsecs : ℤ) (calls : List Call)
    (hfitting : ∀ samp ∈ received calls, Fitting limit samp) :
    ∃ (out : SampleOutputStream) (files : List ArchiveFile),
      run disk fuel calls (connected fset header maxUsecs blen) = some (some out) ∧
      out.archived = files.map ArchiveFile.entry ∧ out.discarded = 0 ∧
      files.reverse.flatMap ArchiveFile.samples = received calls ∧
      (∀ file ∈ files, ∀ samp ∈ file.samples, samp.timeTag < file.made.next) ∧
      (∀ file ∈ files, file.made.next = fset.nextFileTime file.made.time) ∧
      files.Pairwise (fun later file => file.made.time < later.made.time) := by
  obtain ⟨out, files, hrun, hstores, harchives⟩ :=
    (stores_connected fset header maxUsecs hblen).run hfields hlen hheader hdisk calls hfitting
      .empty
  rw [List.nil_append] at harchives
  have htimes : ∀ samp ∈ received calls, samp.timeTag < longLongMax :=
    fun samp hsamp => (hfitting samp hsamp).timeTag_lt
  exact ⟨out, files, hrun, archived_of_holds hstores.holds, hstores.kept,
    harchives.flatMap_samples, harchives.lt_next hlen htimes, harchives.next_eq,
    harchives.names_increase hlen htimes⟩

/-- Files of a minute, of which the second name is taken. -/
def minuteFiles : FileSet := { fileLength := 60000000 }

def secondTaken : Disk where
  opens n := if n = 1 then .exists else .created
  writes _ := .accepted 100

def twoMinutes : List Call :=
  [.receive ⟨30000000, .char, 7, [1, 2, 3]⟩, .flush, .receive ⟨70000000, .char, 7, [4]⟩]

theorem goodDisk_secondTaken : GoodDisk secondTaken 100 2 := by
  refine ⟨fun n => ⟨100, rfl, le_rfl⟩, fun opened => ?_⟩
  by_cases hone : opened = 1
  · subst hone
    refine ⟨1, Nat.one_lt_two, rfl, fun n hn => ?_⟩
    rw [Nat.lt_one_iff] at hn
    subst hn
    rfl
  · exact ⟨0, Nat.two_pos, if_neg hone, fun n hn => absurd hn (Nat.not_lt_zero n)⟩

theorem fitting_twoMinutes : ∀ samp ∈ received twoMinutes, Fitting 100 samp := by
  refine List.forall_mem_cons.mpr ⟨⟨by decide, by decide, by decide⟩, ?_⟩
  exact List.forall_mem_singleton.mpr ⟨by decide, by decide, by decide⟩

theorem run_archives_twoMinutes :
    ∃ (out : SampleOutputStream) (files : List ArchiveFile),
      run secondTaken 2 twoMinutes (connected minuteFiles (fun _ => [78, 10]) 20000 8) =
          some (some out) ∧
      out.archived = files.map ArchiveFile.entry ∧ out.discarded = 0 ∧
      files.reverse.flatMap ArchiveFile.samples = received twoMinutes ∧
      (∀ file ∈ files, ∀ samp ∈ file.samples, samp.timeTag < file.made.next) ∧
      (∀ file ∈ files, file.made.next = minuteFiles.nextFileTime file.made.time) ∧
      files.Pairwise (fun later file => file.made.time < later.made.time) := by
  exact run_archives rfl (by decide) (fun _ => by decide) goodDisk_secondTaken (by decide) 20000
    twoMinutes fitting_twoMinutes

end SampleOutputStream

end Nidas.Dynld
