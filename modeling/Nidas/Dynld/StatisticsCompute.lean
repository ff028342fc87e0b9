import Nidas.Dynld.StatisticsSums
import Nidas.Lib.MachineInt

/-!
# Statistics from the sums

`computeStats` computes the moments from the sums, in the order of the output variables.  `outData`
is the list of the values that have been put out, so that its length is the index of the source, and
`none` is not-a-number.  The count of samples is read as a signed integer.  The sums are only read,
apart from `_xSum`, which becomes the means, and `_x4Sum`, which becomes the fourth moments of
trivariances.
-/

namespace Nidas.Dynld.CrossTerms

open Core Lib

/-- `outData[l++] = value` -/
def putOut (outlen : ℕ) (value : Option ℚ) (outData : List (Option ℚ)) :
    Except Fault (List (Option ℚ)) :=
  if outData.length < outlen then pure (outData ++ [value]) else .error .outOfBounds

/-- `_xySum[i][j]` -/
def Sums.xyValue (sums : Sums) (i j : ℕ) : Except Fault ℚ := do
  let at' ← access (sums.xyPosition i j)
  access sums.xySum[at']?

/-- `xyzSump`, `_x4Sum` and the output. -/
structure Computing where
  xyzSump : ℕ
  x4Sum : List ℚ
  outData : List (Option ℚ)

namespace Request

variable (request : Request) (combs : Combinations) (sums : Sums) (nSamp : ℤ)

/-- The means replace the sums, and the first of them are put out. -/
def computeMeans : Except Fault (List ℚ × List (Option ℚ)) :=
  forRange 0 request.ninvars
    (fun i state => do
      let xSum ← access (modifyAt? state.1 i (· / nSamp))
      if i < combs.n1mom then do
        let mean ← access xSum[i]?
        let outData ← putOut sums.outlen (some mean) state.2
        pure (xSum, outData)
      else pure (xSum, state.2))
    (sums.xSum, [])

/-- `nr` -/
def momentRows : ℕ :=
  let nr := request.ninvars
  let nr := if request.type = .rflux ∧ request.ninvars > 3 then 3 else nr
  if request.type = .sflux ∧ request.ninvars > 3 then 1 else nr

variable (xSum : List ℚ)

/-- The moments of order 2. -/
def computeSecond : List (Option ℚ) → Except Fault (List (Option ℚ)) :=
  forRange 0 request.momentRows fun i =>
    forRange i (if request.type = .flux ∧ i > 2 then i + 1 else request.ninvars) fun j outData => do
      let xy ← sums.xyValue i j
      let xi ← access xSum[i]?
      let xj ← access xSum[j]?
      let xr := xy / nSamp - xi * xj
      putOut sums.outlen (some (if (i = j ∧ xr < 0) ∨ nSamp < 2 then 0 else xr)) outData

/-- The moment of order 3 of some variables, and of order 4 if they are the same one. -/
def computeTriple (isMoment : Bool) (i j k : ℕ) (state : Computing) : Except Fault Computing := do
  let x ← access sums.xyzSum[state.xyzSump]?
  let xi ← access xSum[i]?
  let xj ← access xSum[j]?
  let xk ← access xSum[k]?
  let xyjk ← sums.xyValue j k
  let xyik ← sums.xyValue i k
  let xyij ← sums.xyValue i j
  let xr := (x - xi * xyjk - xj * xyik - xk * xyij) / nSamp + 2 * xi * xj * xk
  let outData ← putOut sums.outlen (some (if nSamp < 2 then 0 else xr)) state.outData
  if request.higherMoments ∧ isMoment then do
    let xyii ← sums.xyValue i i
    let x4Sum ← access (modifyAt? state.x4Sum i fun x4 =>
      x4 / nSamp - 4 * xi * x / nSamp + 6 * xi * xi * xyii / nSamp - 3 * xi * xi * xi * xi)
    pure ⟨state.xyzSump + 1, x4Sum, outData⟩
  else pure ⟨state.xyzSump + 1, state.x4Sum, outData⟩

/-- The moments of order 4 that have been computed with those of order 3. -/
def putFourth (state : Computing) : Except Fault (List (Option ℚ)) :=
  if request.higherMoments then
    forRange 0 request.ninvars
      (fun i outData => do
        let xr ← access state.x4Sum[i]?
        putOut sums.outlen (some (if xr < 0 then 0 else xr)) outData)
      state.outData
  else pure state.outData

def computeTrivar (outData : List (Option ℚ)) : Except Fault (List (Option ℚ)) := do
  let state ← forRange 0 request.ninvars
    (fun i => forRange i request.ninvars fun j => forRange j request.ninvars fun k =>
      request.computeTriple sums nSamp xSum (k = i) i j k)
    ⟨0, sums.x4Sum, outData⟩
  request.putFourth sums state

def computePrunedTrivar (outData : List (Option ℚ)) : Except Fault (List (Option ℚ)) := do
  let state ← forRange 0 combs.ntri
    (fun n state => do
      let (i, j, k) ← access combs.triComb[n]?
      request.computeTriple sums nSamp xSum (i = j ∧ j = k) i j k state)
    ⟨0, sums.x4Sum, outData⟩
  request.putFourth sums state

/-- The moments of order 3. -/
def computeThird (outData : List (Option ℚ)) : Except Fault (List (Option ℚ)) :=
  if combs.n3mom > 0 then
    forRange 0 request.momentRows
      (fun i outData => do
        let xm ← access xSum[i]?
        let xyz ← access sums.xyzSum[i]?
        let xyii ← sums.xyValue i i
        let xr := xyz / nSamp - 3 * xm * xyii / nSamp + 2 * xm * xm * xm
        putOut sums.outlen (some (if nSamp < 2 then 0 else xr)) outData)
      outData
  else pure outData

/-- The moments of order 4. -/
def computeFourth (outData : List (Option ℚ)) : Except Fault (List (Option ℚ)) :=
  if combs.n4mom > 0 then
    forRange 0 request.momentRows
      (fun i outData => do
        let xm ← access xSum[i]?
        let x4 ← access sums.x4Sum[i]?
        let xyz ← access sums.xyzSum[i]?
        let xyii ← sums.xyValue i i
        let xr := x4 / nSamp - 4 * xm * xyz / nSamp + 6 * xm * xm * xyii / nSamp -
          3 * xm * xm * xm * xm
        putOut sums.outlen (some (if nSamp < 2 ∨ xr < 0 then 0 else xr)) outData)
      outData
  else pure outData

/-- The moments of order 3 and 4, by the type of the statistics. -/
def computeHigher (outData : List (Option ℚ)) : Except Fault (List (Option ℚ)) :=
  match request.type with
  | .trivar => request.computeTrivar sums nSamp xSum outData
  | .prunedTrivar => request.computePrunedTrivar combs sums nSamp xSum outData
  | _ => do
      let outData ← request.computeThird combs sums nSamp xSum outData
      request.computeFourth combs sums nSamp xSum outData

/-- The `switch` in `computeStats`: the values that are put out. -/
def computeMoments : Except Fault (List (Option ℚ)) :=
  if nSamp = 0 then
    forRange 0 combs.ntot (fun _ outData => putOut sums.outlen none outData) []
  else do
    let (xSum, outData) ← request.computeMeans combs sums nSamp
    let outData ← request.computeSecond sums nSamp xSum outData
    request.computeHigher combs sums nSamp xSum outData

/-- `computeStats`: the output, and the sums, which are zero again. -/
def computeStats : Except Fault (List (Option ℚ) × Sums) := do
  let count : ℕ ← access sums.nSamples[0]?
  let nSamp := toInt32 count
  let outData ← request.computeMoments combs sums nSamp
  assert (outData.length = combs.ntot)
  let outData ← putOut sums.outlen (some nSamp) outData
  let sums ← sums.zeroStats combs
  pure (outData, sums)

/-- **A cruncher in one period**: from the combinations to the output, with the values that new
memory happens to have. -/
def crunch (junk : ℚ) (junkCount : ℕ) (info : SampleInfo) (samples : List ValueSample) :
    Except Fault (List OutVariable × List (Option ℚ)) := do
  let combs ← request.createCombinations
  let allocated ← request.initStats junk junkCount combs
  let sums ← allocated.zeroStats combs
  let sums ← samples.foldlM (request.receive combs info) sums
  let (outData, _) ← request.computeStats combs sums
  pure (combs.outVariables, outData)

end Request

end Nidas.Dynld.CrossTerms
