import Mathlib.Data.List.Nodup
import Mathlib.Logic.Function.Basic
import Mathlib.Tactic.Ring
import Nidas.Core.Sample
import Nidas.Lib.Outcome
import Nidas.Lib.Runs

/-!
# The sample pool

A `SamplePool` keeps the samples that nobody uses, in three vectors for small, medium and large
ones.  `getSample` hands one out, from the vector for its length or from one for larger samples,
and allocates more data or a new sample if it has to.  `putSample` takes it back, into the vector
for the data that the sample has by then.

## Strategy

`Sound` is the invariant, of a pool and the samples that have been handed out.  The vectors hold
samples of their own class only because a sample is filed when it is put back and cannot change
while it is in the pool, and a vector has room because its capacity is at least 2, so that half
of it is at least 1.  Each operation keeps the invariant and does not fail but for lengths that no
sample can have (`getSample_spec`, `putSample_spec`), and so does every sequence of them
(`pool_sound`).

Samples are numbered in the order in which they are created.  A sample whose first allocation
throws an exception is not one of them: it is lost before it is counted.  The counts have no bounds
here, as there is no memory for so many samples that an `int` would overflow.
-/

namespace Nidas.Core.Pool

/-! ## Samples -/

/-- What the pool needs of a `SampleT`: its bytes, and how many of them are data. -/
structure SampleT where
  allocLen : ℕ
  dataByteLength : ℕ
  deriving DecidableEq

/-- A `SampleLengthException` -/
structure SampleLengthException where
  msg : String
  val : ℕ
  maxVal : ℕ
  deriving DecidableEq

namespace SampleT

variable (type : SampleType)

/-- `SampleT()` -/
def new : SampleT := ⟨0, 0⟩

/-- `SampleT::getMaxDataLength` -/
def getMaxDataLength : ℕ := (2 ^ 32 - 1) / type.size

/-- `SampleT::getAllocLength` -/
def getAllocLength (sample : SampleT) : ℕ := sample.allocLen / type.size

/-- `SampleT::allocateData` -/
def allocateData (val : ℕ) (sample : SampleT) : Except SampleLengthException SampleT :=
  if val > getMaxDataLength type then
    .error ⟨"SampleT::allocateData:", val, getMaxDataLength type⟩
  else if sample.allocLen < val * type.size then .ok ⟨val * type.size, 0⟩
  else .ok sample

/-- `SampleT::reallocateData` -/
def reallocateData (val : ℕ) (sample : SampleT) : Except SampleLengthException SampleT :=
  if val > getMaxDataLength type then
    .error ⟨"SampleT::reallocateData:", val, getMaxDataLength type⟩
  else if sample.allocLen < val * type.size then .ok { sample with allocLen := val * type.size }
  else .ok sample

/-- `SampleT::setDataLength` -/
def setDataLength (val : ℕ) (sample : SampleT) : Except SampleLengthException SampleT :=
  if val > sample.getAllocLength type then
    .error ⟨"SampleT::setDataLength:", val, sample.getAllocLength type⟩
  else .ok { sample with dataByteLength := val * type.size }

end SampleT

/-! ## The pool -/

/-- The three classes of samples. -/
inductive SizeClass where
  | small
  | medium
  | large
  deriving DecidableEq

/-- A vector of samples, the last one first, and the number of samples it has room for. -/
structure SampleVector where
  samples : List ℕ
  nalloc : ℕ

structure SamplePool where
  vectors : SizeClass → SampleVector
  nsamplesOut : ℤ
  nsamplesAlloc : ℤ
  /-- The samples that exist, and their number. -/
  heap : ℕ → SampleT
  created : ℕ

/-- What ends an operation: an `assert`, a store behind a vector, or an exception. -/
inductive PoolFailure where
  | assertion
  | overrun
  | sampleLength (e : SampleLengthException)

namespace SamplePool

/-- `SMALL_SAMPLE_MAXSIZE` -/
def smallMaxSize : ℕ := 64

/-- `MEDIUM_SAMPLE_MAXSIZE` -/
def mediumMaxSize : ℕ := 512

/-- The constructor; `sizeofSample` is the size of a sample without its data. -/
def new (type : SampleType) (sizeofSample : ℕ) : SamplePool :=
  let smallSize := max 2 (16384 / (sizeofSample + smallMaxSize * type.size))
  let mediumSize := max 2 (smallSize / (mediumMaxSize / smallMaxSize))
  let largeSize := max 2 (mediumSize / 2)
  { vectors := fun
      | .small => ⟨[], smallSize⟩
      | .medium => ⟨[], mediumSize⟩
      | .large => ⟨[], largeSize⟩
    nsamplesOut := 0
    nsamplesAlloc := 0
    heap := fun _ => SampleT.new
    created := 0 }

/-- `_nsmall`, `_nmedium` and `_nlarge` -/
def count (pool : SamplePool) (c : SizeClass) : ℕ := (pool.vectors c).samples.length

/-- The class of a length. -/
def classOf (len : ℕ) : SizeClass :=
  if len < smallMaxSize then .small else if len < mediumMaxSize then .medium else .large

/-- The assertions at the beginning of `getSample` and `putSample`. -/
def checkCounts (pool : SamplePool) : Except PoolFailure Unit :=
  if 0 ≤ pool.nsamplesOut ∧ pool.nsamplesAlloc =
      pool.count .small + pool.count .medium + pool.count .large + pool.nsamplesOut then .ok ()
  else .error .assertion

variable (type : SampleType)

/-- The allocation of data, as the pool does it. -/
def allocate (len : ℕ) (sample : SampleT) : Except PoolFailure SampleT :=
  ((if sample.getAllocLength type < len then sample.allocateData type len else .ok sample).bind
    (SampleT.setDataLength type len)).mapError .sampleLength

/-- `getSample(SampleType**, int*, unsigned int)` -/
def getSampleFrom (c : SizeClass) (len : ℕ) (pool : SamplePool) :
    Except PoolFailure (ℕ × SamplePool) :=
  match (pool.vectors c).samples with
  | sample :: rest => do
      let data ← allocate type len (pool.heap sample)
      pure (sample, { pool with
        vectors := Function.update pool.vectors c { pool.vectors c with samples := rest }
        heap := Function.update pool.heap sample data
        nsamplesOut := pool.nsamplesOut + 1 })
  | [] => do
      let data ← ((SampleT.new.allocateData type len).bind
        (SampleT.setDataLength type len)).mapError .sampleLength
      pure (pool.created, { pool with
        heap := Function.update pool.heap pool.created data
        created := pool.created + 1
        nsamplesAlloc := pool.nsamplesAlloc + 1
        nsamplesOut := pool.nsamplesOut + 1 })

/-- The class that a length is served from: a larger one if its own has no samples and there are
some to spare. -/
def servedFrom (pool : SamplePool) (len : ℕ) : SizeClass :=
  if len < smallMaxSize ∧ (pool.count .small > 0 ∨ pool.count .medium + pool.count .large < 4) then
    .small
  else if len < mediumMaxSize ∧ (pool.count .medium > 0 ∨ pool.count .large < 2) then .medium
  else .large

/-- `getSample(unsigned int)` -/
def getSample (len : ℕ) (pool : SamplePool) : Except PoolFailure (ℕ × SamplePool) := do
  checkCounts pool
  getSampleFrom type (pool.servedFrom len) len pool

/-- `putSample(const SampleType*, SampleType***, int*, int*)`, which fails where it would store
behind the vector -/
def putSampleInto (c : SizeClass) (sample : ℕ) (pool : SamplePool) :
    Except PoolFailure SamplePool :=
  let vec := pool.vectors c
  let nalloc :=
    if vec.samples.length = vec.nalloc then vec.nalloc + vec.nalloc / 2 else vec.nalloc
  if vec.samples.length < nalloc then
    .ok { pool with
      vectors := Function.update pool.vectors c ⟨sample :: vec.samples, nalloc⟩
      nsamplesOut := pool.nsamplesOut - 1 }
  else .error .overrun

/-- `putSample(const SampleType*)` -/
def putSample (sample : ℕ) (pool : SamplePool) : Except PoolFailure SamplePool := do
  checkCounts pool
  putSampleInto (classOf ((pool.heap sample).getAllocLength type)) sample pool

end SamplePool

/-! ## The pool and its callers -/

/-- A pool and the samples that have been handed out. -/
structure PoolUse where
  pool : SamplePool
  out : List ℕ

/-- What is done with a pool.  While a sample is handed out, more data may be allocated in it. -/
inductive PoolAction where
  | getSample (len : ℕ)
  | putSample (sample : ℕ)
  | allocateData (sample val : ℕ)
  | reallocateData (sample val : ℕ)

namespace PoolUse

variable (type : SampleType)

/-- Change the data of a sample, if that does not throw. -/
def change (state : PoolUse) (sample : ℕ)
    (op : SampleT → Except SampleLengthException SampleT) : PoolUse :=
  match op (state.pool.heap sample) with
  | .ok data => { state with pool :=
      { state.pool with heap := Function.update state.pool.heap sample data } }
  | .error _ => state

/-- An action.  Callers put back only samples that they have been handed, and change only these.
An exception leaves everything as it is; other failures end the program. -/
def step (state : PoolUse) : PoolAction → Option PoolUse
  | .getSample len =>
      match state.pool.getSample type len with
      | .ok (sample, pool) => some ⟨pool, sample :: state.out⟩
      | .error (.sampleLength _) => some state
      | .error _ => none
  | .putSample sample =>
      if sample ∈ state.out then
        match state.pool.putSample type sample with
        | .ok pool => some ⟨pool, state.out.erase sample⟩
        | .error _ => none
      else none
  | .allocateData sample val =>
      if sample ∈ state.out then some (state.change sample (SampleT.allocateData type val))
      else none
  | .reallocateData sample val =>
      if sample ∈ state.out then some (state.change sample (SampleT.reallocateData type val))
      else none

end PoolUse

/-! ## Allocation -/

section

variable {type : SampleType}

theorem SampleType.size_pos (type : SampleType) : 0 < type.size := by
  cases type <;> decide

namespace SampleT

/-- After an allocation there is room; it fails only for lengths that no sample can have. -/
theorem allocateData_spec (val : ℕ) (sample : SampleT) :
    Lib.Outcome (fun data => val ≤ data.getAllocLength type)
      (fun _ => getMaxDataLength type < val) (sample.allocateData type val) := by
  have hsize := SampleType.size_pos type
  unfold allocateData
  split
  · assumption
  · split
    · rw [Lib.Outcome.ok_iff, getAllocLength, Nat.mul_div_cancel _ hsize]
    · rename_i hlen
      exact (Nat.le_div_iff_mul_le hsize).mpr (not_lt.mp hlen)

/-- Setting the length of data that there is room for. -/
theorem setDataLength_of_le {val : ℕ} {sample : SampleT}
    (hroom : val ≤ sample.getAllocLength type) :
    sample.setDataLength type val = .ok { sample with dataByteLength := val * type.size } :=
  if_neg (not_lt.mpr hroom)

end SampleT

/-- What the pool gives out has room for the length that was asked for, and has this length. -/
def Room (type : SampleType) (len : ℕ) (data : SampleT) : Prop :=
  len ≤ data.getAllocLength type ∧ data.dataByteLength = len * type.size

/-- The failure is that no sample can have the length. -/
def TooLong (type : SampleType) (len : ℕ) : PoolFailure → Prop
  | .sampleLength _ => SampleT.getMaxDataLength type < len
  | _ => False

namespace SamplePool

theorem allocate_of_data {len : ℕ} {data : Except SampleLengthException SampleT}
    (hdata : Lib.Outcome (fun data => len ≤ data.getAllocLength type)
      (fun _ => SampleT.getMaxDataLength type < len) data) :
    Lib.Outcome (Room type len) (TooLong type len)
      ((data.bind (SampleT.setDataLength type len)).mapError .sampleLength) := by
  cases data with
  | error e => exact hdata
  | ok data =>
      have hset : (Except.ok data).bind (SampleT.setDataLength type len) =
          .ok { data with dataByteLength := len * type.size } :=
        SampleT.setDataLength_of_le hdata
      rw [hset]
      exact ⟨hdata, rfl⟩

theorem allocate_spec (len : ℕ) (sample : SampleT) :
    Lib.Outcome (Room type len) (TooLong type len) (allocate type len sample) := by
  apply allocate_of_data
  split
  · exact SampleT.allocateData_spec len sample
  · rename_i hlen
    exact not_lt.mp hlen

/-! ## The invariant -/

/-- The samples in some vectors. -/
def samplesIn (vectors : SizeClass → SampleVector) : List ℕ :=
  (vectors .small).samples ++ ((vectors .medium).samples ++ (vectors .large).samples)

/-- A pool that is in order, with the samples that have been handed out. -/
structure Sound (type : SampleType) (pool : SamplePool) (out : List ℕ) : Prop where
  /-- The samples that exist are in the pool or handed out. -/
  counted : pool.nsamplesAlloc = pool.created
  conserved : pool.nsamplesAlloc = (samplesIn pool.vectors).length + pool.nsamplesOut
  handed : pool.nsamplesOut = out.length
  /-- No sample is in the pool twice or while it is handed out. -/
  distinct : (samplesIn pool.vectors ++ out).Nodup
  existing : ∀ sample ∈ samplesIn pool.vectors ++ out, sample < pool.created
  /-- The vectors hold samples of their own class. -/
  filed : ∀ c, ∀ sample ∈ (pool.vectors c).samples,
    classOf ((pool.heap sample).getAllocLength type) = c
  within : ∀ c, (pool.vectors c).samples.length ≤ (pool.vectors c).nalloc
  growable : ∀ c, 2 ≤ (pool.vectors c).nalloc

theorem mem_samplesIn {vectors : SizeClass → SampleVector} {c : SizeClass} {sample : ℕ}
    (hmem : sample ∈ (vectors c).samples) : sample ∈ samplesIn vectors := by
  unfold samplesIn
  rw [List.mem_append, List.mem_append]
  cases c with
  | small => exact .inl hmem
  | medium => exact .inr (.inl hmem)
  | large => exact .inr (.inr hmem)

/-- One sample more in one of the vectors. -/
theorem samplesIn_update (vectors : SizeClass → SampleVector) (c : SizeClass)
    {vec vec' : SampleVector} {sample : ℕ} (hcons : vec'.samples = sample :: vec.samples) :
    (samplesIn (Function.update vectors c vec')).Perm
      (sample :: samplesIn (Function.update vectors c vec)) := by
  unfold samplesIn
  cases c with
  | small => simp [hcons]
  | medium =>
      simp only [Function.update_self, hcons, ne_eq, reduceCtorEq, not_false_eq_true,
        Function.update_of_ne]
      exact List.perm_middle
  | large =>
      simp only [Function.update_self, hcons, ne_eq, reduceCtorEq, not_false_eq_true,
        Function.update_of_ne]
      rw [← List.append_assoc, ← List.append_assoc]
      exact List.perm_middle

theorem length_samplesIn (pool : SamplePool) :
    (samplesIn pool.vectors).length
      = pool.count .small + pool.count .medium + pool.count .large := by
  unfold samplesIn count
  rw [List.length_append, List.length_append]
  omega

variable {pool : SamplePool} {out : List ℕ}

theorem Sound.checkCounts (hsound : Sound type pool out) : pool.checkCounts = .ok () := by
  have hlength := length_samplesIn pool
  have hconserved := hsound.conserved
  have hhanded := hsound.handed
  apply if_pos
  constructor <;> omega

theorem sound_new (type : SampleType) (sizeofSample : ℕ) :
    Sound type (new type sizeofSample) [] where
  counted := rfl
  conserved := rfl
  handed := rfl
  distinct := List.nodup_nil
  existing := fun _ hmem => absurd hmem List.not_mem_nil
  filed := by
    intro c sample hmem
    cases c <;> exact absurd hmem List.not_mem_nil
  within := by
    intro c
    cases c <;> exact Nat.zero_le _
  growable := by
    intro c
    cases c <;> exact le_max_left _ _

/-! ## Handing a sample out -/

/-- The sample comes off its vector and is handed out; its data may change at the same time. -/
theorem Sound.pop (hsound : Sound type pool out) {c : SizeClass} {sample : ℕ} {rest : List ℕ}
    (hvec : (pool.vectors c).samples = sample :: rest) (data : SampleT) :
    Sound type { pool with
      vectors := Function.update pool.vectors c { pool.vectors c with samples := rest }
      heap := Function.update pool.heap sample data
      nsamplesOut := pool.nsamplesOut + 1 } (sample :: out) := by
  have hperm : (samplesIn pool.vectors).Perm (sample :: samplesIn
      (Function.update pool.vectors c { pool.vectors c with samples := rest })) := by
    have hupdate := @samplesIn_update pool.vectors c { pool.vectors c with samples := rest }
      (pool.vectors c) sample hvec
    rwa [Function.update_eq_self] at hupdate
  have hall : (samplesIn pool.vectors ++ out).Perm (samplesIn
      (Function.update pool.vectors c { pool.vectors c with samples := rest }) ++ sample :: out) :=
    (hperm.append_right out).trans List.perm_middle.symm
  have hdistinct := hall.nodup_iff.mp hsound.distinct
  have hnot : sample ∉ samplesIn
      (Function.update pool.vectors c { pool.vectors c with samples := rest }) := by
    intro hmem
    exact (List.disjoint_of_nodup_append hdistinct) hmem List.mem_cons_self
  have hsub : ∀ c', ∀ s ∈ (Function.update pool.vectors c
      { pool.vectors c with samples := rest } c').samples, s ∈ (pool.vectors c').samples := by
    intro c' s hs
    by_cases hc : c' = c
    · subst hc
      rw [Function.update_self] at hs
      rw [hvec]
      exact List.mem_cons_of_mem _ hs
    · rwa [Function.update_of_ne hc] at hs
  constructor
  · exact hsound.counted
  · have hlength := hperm.length_eq
    have hconserved := hsound.conserved
    rw [List.length_cons] at hlength
    show pool.nsamplesAlloc = ((samplesIn (Function.update pool.vectors c
      { pool.vectors c with samples := rest })).length : ℤ) + (pool.nsamplesOut + 1)
    rw [hconserved, hlength]
    push_cast
    ring
  · have hhanded := hsound.handed
    simp only [List.length_cons]
    push_cast
    omega
  · exact hdistinct
  · intro s hs
    exact hsound.existing s (hall.mem_iff.mpr hs)
  · intro c' s hs
    have hne : s ≠ sample := by
      rintro rfl
      exact hnot (mem_samplesIn hs)
    dsimp only
    rw [Function.update_of_ne hne]
    exact hsound.filed c' s (hsub c' s hs)
  · intro c'
    have hwithin := hsound.within c'
    dsimp only
    by_cases hc : c' = c
    · subst hc
      rw [Function.update_self]
      rw [hvec, List.length_cons] at hwithin
      dsimp only
      omega
    · rwa [Function.update_of_ne hc]
  · intro c'
    have hgrowable := hsound.growable c'
    dsimp only
    by_cases hc : c' = c
    · subst hc
      rw [Function.update_self]
      exact hgrowable
    · rwa [Function.update_of_ne hc]

/-- A new sample is handed out. -/
theorem Sound.create (hsound : Sound type pool out) (data : SampleT) :
    Sound type { pool with
      heap := Function.update pool.heap pool.created data
      created := pool.created + 1
      nsamplesAlloc := pool.nsamplesAlloc + 1
      nsamplesOut := pool.nsamplesOut + 1 } (pool.created :: out) := by
  have hnot : pool.created ∉ samplesIn pool.vectors ++ out := fun hmem =>
    lt_irrefl _ (hsound.existing _ hmem)
  constructor
  · have hcounted := hsound.counted
    push_cast
    omega
  · have hconserved := hsound.conserved
    dsimp only
    omega
  · have hhanded := hsound.handed
    simp only [List.length_cons]
    push_cast
    omega
  · exact List.perm_middle.nodup_iff.mpr (List.nodup_cons.mpr ⟨hnot, hsound.distinct⟩)
  · intro s hs
    rcases List.mem_cons.mp (List.perm_middle.mem_iff.mp hs) with rfl | hmem
    · exact Nat.lt_succ_self _
    · exact (hsound.existing s hmem).trans (Nat.lt_succ_self _)
  · intro c s hs
    have hne : s ≠ pool.created := by
      rintro rfl
      exact hnot (List.mem_append_left _ (mem_samplesIn hs))
    dsimp only
    rw [Function.update_of_ne hne]
    exact hsound.filed c s hs
  · exact hsound.within
  · exact hsound.growable

/-- A sample that is handed out has room, the pool stays in order, and the only failure is that
no sample can have the length. -/
theorem getSample_spec (hsound : Sound type pool out) (len : ℕ) :
    Lib.Outcome (fun got => Room type len (got.2.heap got.1) ∧ Sound type got.2 (got.1 :: out))
      (TooLong type len) (pool.getSample type len) := by
  unfold getSample
  rw [hsound.checkCounts]
  show Lib.Outcome _ _ (getSampleFrom type (pool.servedFrom len) len pool)
  unfold getSampleFrom
  split
  · rename_i sample rest hvec
    rcases (@allocate_spec type len (pool.heap sample)).cases with
      ⟨data, hdata, hroom⟩ | ⟨e, he, hlong⟩
    · rw [hdata]
      refine ⟨?_, hsound.pop hvec data⟩
      show Room type len (Function.update pool.heap sample data sample)
      rwa [Function.update_self]
    · rw [he]
      exact hlong
  · rcases (allocate_of_data (@SampleT.allocateData_spec type len SampleT.new)).cases with
      ⟨data, hdata, hroom⟩ | ⟨e, he, hlong⟩
    · rw [hdata]
      refine ⟨?_, hsound.create data⟩
      show Room type len (Function.update pool.heap pool.created data pool.created)
      rwa [Function.update_self]
    · rw [he]
      exact hlong

/-! ## Taking a sample back -/

/-- A vector has room for one more sample, after it has grown if it was full. -/
theorem lt_of_grown {n nalloc : ℕ} (hwithin : n ≤ nalloc) (hgrowable : 2 ≤ nalloc) :
    n < if n = nalloc then nalloc + nalloc / 2 else nalloc := by
  split <;> omega

theorem putSample_spec (hsound : Sound type pool out) {sample : ℕ} (hout : sample ∈ out) :
    ∃ pool', pool.putSample type sample = .ok pool' ∧ Sound type pool' (out.erase sample) := by
  unfold putSample
  rw [hsound.checkCounts]
  obtain ⟨c, hc⟩ : ∃ c, c = classOf ((pool.heap sample).getAllocLength type) := ⟨_, rfl⟩
  obtain ⟨nalloc, hnalloc⟩ : ∃ nalloc, nalloc =
      if (pool.vectors c).samples.length = (pool.vectors c).nalloc
      then (pool.vectors c).nalloc + (pool.vectors c).nalloc / 2
      else (pool.vectors c).nalloc := ⟨_, rfl⟩
  have hroom := lt_of_grown (hsound.within c) (hsound.growable c)
  rw [← hnalloc] at hroom
  have hput : putSampleInto c sample pool = .ok { pool with
      vectors := Function.update pool.vectors c ⟨sample :: (pool.vectors c).samples, nalloc⟩
      nsamplesOut := pool.nsamplesOut - 1 } := by
    unfold putSampleInto
    dsimp only
    rw [← hnalloc]
    exact if_pos hroom
  refine ⟨_, by rw [← hc]; exact hput, ?_⟩
  have hperm : (samplesIn (Function.update pool.vectors c
      ⟨sample :: (pool.vectors c).samples, nalloc⟩)).Perm (sample :: samplesIn pool.vectors) := by
    have hupdate := @samplesIn_update pool.vectors c (pool.vectors c)
      ⟨sample :: (pool.vectors c).samples, nalloc⟩ sample rfl
    rwa [Function.update_eq_self] at hupdate
  have hall : (samplesIn (Function.update pool.vectors c
      ⟨sample :: (pool.vectors c).samples, nalloc⟩) ++ out.erase sample).Perm
      (samplesIn pool.vectors ++ out) :=
    calc _ = _ := rfl
      List.Perm _ (sample :: samplesIn pool.vectors ++ out.erase sample) :=
        hperm.append_right _
      List.Perm _ (samplesIn pool.vectors ++ sample :: out.erase sample) :=
        List.perm_middle.symm
      List.Perm _ (samplesIn pool.vectors ++ out) :=
        (List.perm_cons_erase hout).symm.append_left _
  constructor
  · exact hsound.counted
  · have hlength := hperm.length_eq
    have hconserved := hsound.conserved
    rw [List.length_cons] at hlength
    dsimp only
    omega
  · have hhanded := hsound.handed
    have hlength := List.length_erase_of_mem hout
    have hpos := List.length_pos_of_mem hout
    dsimp only
    omega
  · exact hall.nodup_iff.mpr hsound.distinct
  · intro s hs
    exact hsound.existing s (hall.mem_iff.mp hs)
  · intro c' s hs
    by_cases hc' : c' = c
    · subst hc'
      dsimp only at hs
      rw [Function.update_self] at hs
      rcases List.mem_cons.mp hs with rfl | hmem
      · exact hc.symm
      · exact hsound.filed _ s hmem
    · dsimp only at hs
      rw [Function.update_of_ne hc'] at hs
      exact hsound.filed c' s hs
  · intro c'
    dsimp only
    by_cases hc' : c' = c
    · subst hc'
      rw [Function.update_self]
      exact hroom
    · rw [Function.update_of_ne hc']
      exact hsound.within c'
  · intro c'
    have hgrowable := hsound.growable c'
    dsimp only
    by_cases hc' : c' = c
    · subst hc'
      rw [Function.update_self]
      dsimp only
      split at hnalloc <;> omega
    · rwa [Function.update_of_ne hc']

/-- Samples that are handed out may change. -/
theorem Sound.update (hsound : Sound type pool out) {sample : ℕ} (hout : sample ∈ out)
    (data : SampleT) :
    Sound type { pool with heap := Function.update pool.heap sample data } out where
  counted := hsound.counted
  conserved := hsound.conserved
  handed := hsound.handed
  distinct := hsound.distinct
  existing := hsound.existing
  filed := by
    intro c s hs
    have hne : s ≠ sample := by
      rintro rfl
      exact (List.disjoint_of_nodup_append hsound.distinct) (mem_samplesIn hs) hout
    dsimp only
    rw [Function.update_of_ne hne]
    exact hsound.filed c s hs
  within := hsound.within
  growable := hsound.growable

end SamplePool

/-! ## Every sequence of operations -/

namespace PoolUse

/-- The state is in order, the next sample that is asked for will have room unless no sample can
have its length, and every sample that has been handed out can be put back. -/
structure Safe (type : SampleType) (state : PoolUse) : Prop where
  sound : SamplePool.Sound type state.pool state.out
  served : ∀ len, Lib.Outcome (fun got => Room type len (got.2.heap got.1)) (TooLong type len)
    (state.pool.getSample type len)
  taken : ∀ sample ∈ state.out, ∃ pool, state.pool.putSample type sample = .ok pool

theorem safe_of_sound {state : PoolUse} (hsound : SamplePool.Sound type state.pool state.out) :
    Safe type state where
  sound := hsound
  served := fun len =>
    (SamplePool.getSample_spec hsound len).mono (fun _ h => h.1) (fun _ h => h)
  taken := fun _ hout =>
    let ⟨pool, hput, _⟩ := SamplePool.putSample_spec hsound hout
    ⟨pool, hput⟩

theorem sound_change {state : PoolUse} (hsound : SamplePool.Sound type state.pool state.out)
    {sample : ℕ} (hout : sample ∈ state.out)
    (op : SampleT → Except SampleLengthException SampleT) :
    SamplePool.Sound type (state.change sample op).pool (state.change sample op).out := by
  unfold change
  split
  · exact hsound.update hout _
  · exact hsound

/-- A step keeps the pool in order. -/
theorem sound_step {state next : PoolUse} (hsound : SamplePool.Sound type state.pool state.out)
    (action : PoolAction) (hstep : step type state action = some next) :
    SamplePool.Sound type next.pool next.out := by
  cases action with
  | getSample len =>
      have hspec := SamplePool.getSample_spec hsound len
      rw [step] at hstep
      split at hstep
      · rename_i sample pool hget
        cases hstep
        exact (hspec.of_ok hget).2
      · cases hstep
        exact hsound
      · cases hstep
  | putSample sample =>
      rw [step] at hstep
      split at hstep
      · rename_i hout
        obtain ⟨pool, hput, hsound'⟩ := SamplePool.putSample_spec hsound hout
        rw [hput] at hstep
        cases hstep
        exact hsound'
      · cases hstep
  | allocateData sample val =>
      rw [step] at hstep
      split at hstep
      · rename_i hout
        cases hstep
        exact sound_change hsound hout _
      · cases hstep
  | reallocateData sample val =>
      rw [step] at hstep
      split at hstep
      · rename_i hout
        cases hstep
        exact sound_change hsound hout _
      · cases hstep

end PoolUse

end

/-- In every state that a pool and its callers reach, the counts are right, no sample is in two
places, the vectors hold samples of their own class, and no operation fails but for a length that
no sample can have; a sample that is handed out has room for the length. -/
theorem pool_sound (type : SampleType) (sizeofSample : ℕ) {state : PoolUse}
    (hreach : Lib.Reaches (PoolUse.step type) ⟨SamplePool.new type sizeofSample, []⟩ state) :
    PoolUse.Safe type state := by
  have hsound : SamplePool.Sound type state.pool state.out :=
    hreach.invariant (SamplePool.sound_new type sizeofSample)
      fun _ action _ hsound hstep => PoolUse.sound_step hsound action hstep
  exact PoolUse.safe_of_sound hsound

/-- Three samples are handed out; one of them grows past its class, and they come back. -/
theorem pool_sound_threeSamples :
    ∃ state, PoolUse.Safe .float state ∧ state.pool.count .small = 2 ∧
      state.pool.count .medium = 1 := by
  obtain ⟨state, hreach, hcheck⟩ := @Lib.exists_reaches_of_any _ _
    (PoolUse.step .float) ⟨SamplePool.new .float 48, []⟩
    [.getSample 10, .getSample 20, .getSample 30, .allocateData 1 100, .putSample 0,
      .putSample 1, .putSample 2]
    (fun state => decide (state.pool.count .small = 2) && decide (state.pool.count .medium = 1))
    (by decide +kernel)
  rw [Bool.and_eq_true, decide_eq_true_eq, decide_eq_true_eq] at hcheck
  exact ⟨state, pool_sound .float 48 hreach, hcheck⟩

end Nidas.Core.Pool
