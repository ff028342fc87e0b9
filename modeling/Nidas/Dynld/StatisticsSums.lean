import Nidas.Dynld.StatisticsCombinations

/-!
# The sums of products

`receive` adds the products of the values of a sample to the sums.  The products of two variables,
and of three ones, are added at a pointer that walks through the array; the order of the loops
decides which cell they are added to.
-/

namespace Nidas.Dynld.CrossTerms

open Core Lib

/-! ## The statements of the loops -/

/-- A statement that adds a value to a sum: to a cell of `_xSum`, of `_xyzSum` or of `_x4Sum`, or
where `xySump` or `xyzSump` points to, which is moved on. -/
inductive Addition where
  | x (i : ℕ) (value : ℚ)
  | xy (value : ℚ)
  | xyz (value : ℚ)
  | xyzAt (i : ℕ) (value : ℚ)
  | x4 (i : ℕ) (value : ℚ)

/-- The sums, `xySump` and `xyzSump`. -/
structure Walk where
  sums : Sums
  xySump : ℤ
  xyzSump : ℕ

def Walk.add (walk : Walk) : Addition → Except Fault Walk
  | .x i value => do
      let xSum ← access (modifyAt? walk.sums.xSum i (· + value))
      pure { walk with sums := { walk.sums with xSum := xSum } }
  | .xy value => do
      let at' ← access (position walk.xySump)
      let xySum ← access (modifyAt? walk.sums.xySum at' (· + value))
      pure { walk with sums := { walk.sums with xySum := xySum }, xySump := walk.xySump + 1 }
  | .xyz value => do
      let xyzSum ← access (modifyAt? walk.sums.xyzSum walk.xyzSump (· + value))
      pure { walk with sums := { walk.sums with xyzSum := xyzSum }, xyzSump := walk.xyzSump + 1 }
  | .xyzAt i value => do
      let xyzSum ← access (modifyAt? walk.sums.xyzSum i (· + value))
      pure { walk with sums := { walk.sums with xyzSum := xyzSum } }
  | .x4 i value => do
      let x4Sum ← access (modifyAt? walk.sums.x4Sum i (· + value))
      pure { walk with sums := { walk.sums with x4Sum := x4Sum } }

/-! ## The loops

`value` is the value of an input variable in the sample, and `nvarsin` the number of variables of
the sample. -/

namespace Request

variable (request : Request) (nvarsin : ℕ) (value : ℕ → Except Fault ℚ)

/-- The sums of higher moments, with the option for them. -/
def addHigher (i : ℕ) (x : ℚ) (walk : Walk) : Except Fault Walk :=
  if request.higherMoments then do
    let walk ← walk.add (.xyzAt i (x * x * x))
    walk.add (.x4 i (x * x * x * x))
  else pure walk

/-- A variable, with its products with itself and the variables behind it. -/
def addRow (i : ℕ) (walk : Walk) : Except Fault Walk := do
  let x ← value i
  let walk ← walk.add (.x i x)
  let walk ← forRange i nvarsin
    (fun j walk => do
      let y ← value j
      walk.add (.xy (x * y)))
    walk
  request.addHigher i x walk

def addCov : Walk → Except Fault Walk := forRange 0 nvarsin (request.addRow nvarsin value)

def addFlux (walk : Walk) : Except Fault Walk := do
  let walk ← forRange 0 3 (request.addRow nvarsin value) walk
  forRange 3 nvarsin
    (fun i walk => do
      let x ← value i
      let walk ← walk.add (.x i x)
      let walk ← walk.add (.xy (x * x))
      request.addHigher i x walk)
    walk

def addReducedFlux (walk : Walk) : Except Fault Walk := do
  let walk ← forRange 0 3 (request.addRow nvarsin value) walk
  forRange 3 nvarsin
    (fun i walk => do
      let x ← value i
      walk.add (.x i x))
    walk

def addScalarFlux (walk : Walk) : Except Fault Walk := do
  let x ← value 0
  let walk ← forRange 0 nvarsin
    (fun j walk => do
      let y ← value j
      let walk ← walk.add (.x j y)
      walk.add (.xy (x * y)))
    walk
  request.addHigher 0 x walk

def addTrivar : Walk → Except Fault Walk :=
  forRange 0 nvarsin fun i walk => do
    let x ← value i
    let walk ← walk.add (.x i x)
    forRange i nvarsin
      (fun j walk => do
        let y ← value j
        let walk ← walk.add (.xy (x * y))
        forRange j nvarsin
          (fun k walk => do
            let z ← value k
            let walk ← walk.add (.xyz (x * y * z))
            if request.higherMoments ∧ k = i then walk.add (.x4 i (x * y * x * x))
            else pure walk)
          walk)
      walk

def addPrunedTrivar (combs : Combinations) (walk : Walk) : Except Fault Walk := do
  let walk ← forRange 0 nvarsin
    (fun i walk => do
      let x ← value i
      let walk ← walk.add (.x i x)
      let walk ← forRange i nvarsin
        (fun j walk => do
          let y ← value j
          walk.add (.xy (x * y)))
        walk
      if request.higherMoments then walk.add (.x4 i (x * x * x * x)) else pure walk)
    walk
  forRange 0 combs.ntri
    (fun n walk => do
      let (i, j, k) ← access combs.triComb[n]?
      let x ← value i
      let y ← value j
      let z ← value k
      walk.add (.xyz (x * y * z)))
    walk

/-- The `switch` in `receive`. -/
def addProducts (combs : Combinations) : Walk → Except Fault Walk :=
  match request.type with
  | .cov => request.addCov nvarsin value
  | .flux => request.addFlux nvarsin value
  | .rflux => request.addReducedFlux nvarsin value
  | .sflux => request.addScalarFlux nvarsin value
  | .trivar => request.addTrivar nvarsin value
  | .prunedTrivar => request.addPrunedTrivar nvarsin value combs

end Request

/-! ## A sample -/

/-- The number of values of a sample: its weight, or a count of them. -/
def nonNANs (info : SampleInfo) (samp : ValueSample) : ℕ :=
  if info.weightsIndex < samp.data.length then
    (((samp.value? info.weightsIndex).map Int.floor).getD 0 % 2 ^ 32).toNat
  else info.varIndices.countP fun index => (samp.value? index.1).isSome

/-- `nonNANs` of the cruncher -/
theorem nonNANs_eq {cruncher : StatisticsCruncher} (hcross : cruncher.statsType.crossTerms = true)
    (info : SampleInfo) (samp : ValueSample) :
    cruncher.nonNANs info samp = nonNANs info samp := by
  unfold StatisticsCruncher.nonNANs nonNANs
  rw [if_pos hcross]

/-- `samp->getDataValue(vindices[i][0])`, behind the assertion that it is there. -/
def inputValue (info : SampleInfo) (samp : ValueSample) (i : ℕ) : Except Fault ℚ := do
  let index ← access info.varIndices[i]?
  assert (index.1 < samp.data.length)
  match samp.value? index.1 with
  | some value => .ok value
  | none => .error .notANumber

/-- `receive`, from the count of values on.  The sample is not added if it is not complete. -/
def Request.receive (request : Request) (combs : Combinations) (info : SampleInfo) (sums : Sums)
    (samp : ValueSample) : Except Fault Sums :=
  if nonNANs info samp < request.ninvars then pure sums
  else do
    let xySump ← access sums.rows[0]?
    let walk ← request.addProducts info.varIndices.length (inputValue info samp) combs
      ⟨sums, xySump, 0⟩
    let nSamples ← access (modifyAt? walk.sums.nSamples 0 fun count => (count + 1) % 2 ^ 32)
    pure { walk.sums with nSamples := nSamples }

end Nidas.Dynld.CrossTerms
