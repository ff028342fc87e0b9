import Nidas.Dynld.StatisticsCruncher
import Nidas.Lib.CountedLoops

/-!
# Combinations of variables

The statistics with cross terms are computed of combinations of the input variables, which depend on
the type of the statistics.  `createCombinations` makes an output variable for each combination, and
`initStats` allocates the sums.

A name and its units are made by `makeName` and `makeUnits` of the same indices of input variables;
they stand for it here.  An array is a list.  An access outside of it and an assertion that fails
are faults.  Only the count of samples has the range of its type.
-/

namespace Nidas.Dynld.CrossTerms

open Lib

/-- What ends a run: an access outside of an array, an assertion, or a value that is not a number,
of which no sums are made here. -/
inductive Fault where
  | outOfBounds
  | assertion
  | notANumber
  deriving DecidableEq, Repr

/-- The access to a cell that may not be there. -/
def access {α : Type*} : Option α → Except Fault α
  | some value => .ok value
  | none => .error .outOfBounds

/-- `assert` -/
def assert (condition : Bool) : Except Fault Unit :=
  if condition then .ok () else .error .assertion

/-- The types of statistics with cross terms, but for wind directions. -/
inductive CrossType where
  | cov
  | flux
  | rflux
  | sflux
  | trivar
  | prunedTrivar
  deriving DecidableEq, Repr

def CrossType.statsType : CrossType → StatsType
  | .cov => .cov
  | .flux => .flux
  | .rflux => .rflux
  | .sflux => .sflux
  | .trivar => .trivar
  | .prunedTrivar => .prunedTrivar

theorem CrossType.crossTerms_statsType (type : CrossType) :
    type.statsType.crossTerms = true := by
  cases type <;> rfl

/-- An output variable: the input variables that its name and its units are made of, and its long
name. -/
structure OutVariable where
  arguments : List ℕ
  longName : String
  deriving DecidableEq, Repr

/-- The members that `createCombinations` sets. -/
structure Combinations where
  outVariables : List OutVariable := []
  nOutVar : ℕ := 0
  triComb : List (ℕ × ℕ × ℕ) := []
  nsum : ℕ := 0
  ncov : ℕ := 0
  ntri : ℕ := 0
  n1mom : ℕ := 0
  n2mom : ℕ := 0
  n3mom : ℕ := 0
  n4mom : ℕ := 0
  ntot : ℕ := 0
  deriving DecidableEq, Repr

/-- `addVariable`, which is written out where it is not called. -/
def Combinations.addVariable (combs : Combinations) (var : OutVariable) : Combinations :=
  let added := if combs.outVariables.length ≤ combs.nOutVar then
      combs.outVariables ++ [⟨[], ""⟩]
    else combs.outVariables
  { combs with
    outVariables := added.set combs.nOutVar var
    nOutVar := combs.nOutVar + 1 }

/-- The members that `setupMoments` sets. -/
def Combinations.countMoments (combs : Combinations) (nv nmoment : ℕ) : Combinations :=
  match nmoment with
  | 1 => { combs with nsum := nv, n1mom := nv }
  | 2 => { combs with n2mom := nv }
  | 3 => { combs with n3mom := nv }
  | 4 => { combs with n4mom := nv }
  | _ => combs

/-- `_triComb[nt] = i, j, k`, and `nt++` -/
def setTriple (i j k : ℕ) (state : Combinations × ℕ) : Except Fault (Combinations × ℕ) := do
  let triComb ← access (modifyAt? state.1.triComb state.2 fun _ => (i, j, k))
  pure ({ state.1 with triComb := triComb }, state.2 + 1)

/-- A combination of three variables, and its output variable. -/
def addTriple (i j k : ℕ) (state : Combinations × ℕ) : Except Fault (Combinations × ℕ) := do
  let (combs, nt) ← setTriple i j k state
  pure (combs.addVariable ⟨[i, j, k], "3rd moment"⟩, nt)

/-- A covariance, with the count of them. -/
def addCovariance (i j : ℕ) (state : Combinations × ℕ) : Except Fault (Combinations × ℕ) :=
  pure (state.1.addVariable ⟨[i, j], "2nd moment"⟩, state.2 + 1)

/-- What a cruncher is asked for: the number of input variables, their long names, the type, and
whether there are higher moments. -/
structure Request where
  ninvars : ℕ
  longNames : ℕ → String
  type : CrossType
  higherMoments : Bool

namespace Request

variable (request : Request)

/-! ## Names -/

/-- The output variable of a moment. -/
def momentVariable (nmoment i : ℕ) : OutVariable :=
  match nmoment with
  | 1 => ⟨[i], request.longNames i⟩
  | 2 => ⟨[i, i], "2nd moment"⟩
  | 3 => ⟨[i, i, i], "3rd moment"⟩
  | 4 => ⟨[i, i, i, i], "4th moment"⟩
  | _ => ⟨[], ""⟩

def setupMoments (nv nmoment : ℕ) : Combinations → Except Fault Combinations :=
  forRange 0 nv fun i combs =>
    pure ((combs.countMoments nv nmoment).addVariable (request.momentVariable nmoment i))

def setupCovariances (combs : Combinations) : Except Fault Combinations :=
  forRange 0 request.ninvars
    (fun i => forRange i request.ninvars fun j combs =>
      pure (combs.addVariable ⟨[i, j], "2nd moment"⟩))
    { combs with
      nsum := request.ninvars
      ncov := request.ninvars * (request.ninvars + 1) / 2 }

def setupTrivariances (combs : Combinations) : Except Fault Combinations :=
  forRange 0 request.ninvars
    (fun i => forRange i request.ninvars fun j => forRange j request.ninvars fun k combs =>
      pure { combs.addVariable ⟨[i, j, k], "3rd moment"⟩ with ntri := combs.ntri + 1 })
    { combs with nsum := request.ninvars, ntri := 0 }

/-- The combinations of different variables, where `s` is a scalar. -/
def addCrossTriples (state : Combinations × ℕ) : Except Fault (Combinations × ℕ) := do
  -- wws, wss
  let state ← forRange 3 request.ninvars (fun j => addTriple 2 2 j) state
  let state ← forRange 3 request.ninvars (fun j => addTriple 2 j j) state
  -- [uv][uvw]w
  let state ← forRange 0 2 (fun i => forRange i 3 fun j => addTriple i j 2) state
  -- uws, vws
  forRange 0 2 (fun i => forRange 3 request.ninvars fun k => addTriple i 2 k) state

def setupPrunedTrivariances (combs : Combinations) : Except Fault Combinations := do
  let allocated := { combs with
    nsum := request.ninvars
    ntri := 5 * request.ninvars - 7
    triComb := List.replicate (5 * request.ninvars - 7) (0, 0, 0) }
  let (combs, nt) ← forRange 0 request.ninvars (fun i => setTriple i i i) (allocated, 0)
  let combs ← request.setupMoments request.ninvars 3 combs
  let (combs, nt) ← request.addCrossTriples ({ combs with n3mom := 0 }, nt)
  assert (nt = combs.ntri)
  assert (combs.triComb.all fun triple => triple.1 ≤ triple.2.1 ∧ triple.2.1 ≤ triple.2.2)
  pure combs

def setupFluxes (combs : Combinations) : Except Fault Combinations := do
  let (combs, nc) ← forRange 0 request.ninvars
    (fun i => forRange i (if i > 2 then i + 1 else request.ninvars) fun j => addCovariance i j)
    ({ combs with nsum := request.ninvars, ncov := 4 * request.ninvars - 6 }, 0)
  assert (nc = combs.ncov)
  pure combs

def setupReducedFluxes (combs : Combinations) : Except Fault Combinations := do
  let (combs, nc) ← forRange 0 (min request.ninvars 3)
    (fun i => forRange i request.ninvars fun j => addCovariance i j)
    ({ combs with nsum := request.ninvars, ncov := 3 * request.ninvars - 3 }, 0)
  assert (nc = combs.ncov)
  pure combs

def setupReducedScalarFluxes (combs : Combinations) : Except Fault Combinations :=
  forRange 0 request.ninvars
    (fun j combs => pure (combs.addVariable ⟨[j, 0], "2nd moment"⟩))
    { combs with nsum := request.ninvars, ncov := request.ninvars }

/-- The moments of order 3 and 4, with the option for them. -/
def setupHigherMoments (nv : ℕ) (combs : Combinations) : Except Fault Combinations :=
  if request.higherMoments then do
    let combs ← request.setupMoments nv 3 combs
    request.setupMoments nv 4 combs
  else pure combs

/-- The moments of order 4, with the option for higher moments. -/
def setupFourthMoments (combs : Combinations) : Except Fault Combinations :=
  if request.higherMoments then request.setupMoments request.ninvars 4 combs else pure combs

/-- The `switch` in `createCombinations`. -/
def setupType (combs : Combinations) : Except Fault Combinations :=
  match request.type with
  | .cov => do
      let combs ← request.setupMoments request.ninvars 1 combs
      let combs ← request.setupCovariances combs
      request.setupHigherMoments request.ninvars combs
  | .trivar => do
      let combs ← request.setupMoments request.ninvars 1 combs
      let combs ← request.setupCovariances combs
      let combs ← request.setupTrivariances combs
      request.setupFourthMoments combs
  | .prunedTrivar => do
      let combs ← request.setupMoments request.ninvars 1 combs
      let combs ← request.setupCovariances combs
      let combs ← request.setupPrunedTrivariances combs
      request.setupFourthMoments combs
  | .flux => do
      let combs ← request.setupMoments request.ninvars 1 combs
      let combs ← request.setupFluxes combs
      request.setupHigherMoments request.ninvars combs
  | .rflux => do
      let combs ← request.setupMoments 3 1 combs
      let combs ← request.setupReducedFluxes combs
      request.setupHigherMoments 3 combs
  | .sflux => do
      let combs ← request.setupMoments 1 1 combs
      let combs ← request.setupReducedScalarFluxes combs
      request.setupHigherMoments 1 combs

def createCombinations : Except Fault Combinations := do
  let combs ← request.setupType {}
  let combs := { combs with
    ntot := combs.n1mom + combs.n2mom + combs.ncov + combs.ntri + combs.n3mom + combs.n4mom }
  assert (combs.ntot = combs.outVariables.length)
  assert (combs.nOutVar = combs.ntot)
  pure combs

end Request

/-! ## Sums -/

/-- The arrays of a cruncher.  `xySum` is the array that the rows of `_xySum` point into, and `rows`
has for each of them the index in it of the column 0. -/
structure Sums where
  outlen : ℕ
  xSum : List ℚ
  rows : List ℤ
  xySum : List ℚ
  xyzSum : List ℚ
  x4Sum : List ℚ
  nSamples : List ℕ

/-- A position in an array, with a pointer that may be in front of it. -/
def position (at' : ℤ) : Option ℕ := if 0 ≤ at' then some at'.toNat else none

/-- Where `_xySum[i][j]` is. -/
def Sums.xyPosition (sums : Sums) (i j : ℕ) : Option ℕ := do
  let row ← sums.rows[i]?
  position (row + j)

namespace Request

variable (request : Request)

/-- The distance of a row of `_xySum` to the next one. -/
def rowWidth (i : ℕ) : ℕ :=
  if (request.type = .flux ∨ request.type = .rflux) ∧ i > 2 then 1 else request.ninvars - i

/-- The rows of `_xySum`, of which there are none without covariances. -/
def initRows (combs : Combinations) : Except Fault (List ℤ) :=
  if combs.ncov > 0 then do
    let (rows, _) ← forRange 0 (if request.type = .sflux then 1 else request.ninvars)
      (fun i state => pure (state.1 ++ [state.2 - (i : ℤ)], state.2 + request.rowWidth i))
      ([], (0 : ℤ))
    pure rows
  else pure []

/-- `initStats`, with the values that new memory happens to have.  A variable with the number of
points is added to the output. -/
def initStats (junk : ℚ) (junkCount : ℕ) (combs : Combinations) : Except Fault Sums := do
  let rows ← request.initRows combs
  pure {
    outlen := if combs.ntot = combs.outVariables.length then combs.outVariables.length + 1
      else combs.outVariables.length
    xSum := List.replicate combs.nsum junk
    rows := rows
    xySum := List.replicate combs.ncov junk
    xyzSum := List.replicate (if combs.ntri > 0 then combs.ntri else combs.n3mom) junk
    x4Sum := List.replicate combs.n4mom junk
    nSamples := List.replicate combs.nsum junkCount }

end Request

/-- Set the first cells of an array to zero. -/
def clear {α : Type*} [Zero α] (n : ℕ) : List α → Except Fault (List α) :=
  forRange 0 n fun i cells => access (modifyAt? cells i fun _ => 0)

/-- Set the first cells of `_xySum[0]` to zero. -/
def Sums.clearXy (sums : Sums) (n : ℕ) : List ℚ → Except Fault (List ℚ) :=
  forRange 0 n fun i xySum => do
    let at' ← access (sums.xyPosition 0 i)
    access (modifyAt? xySum at' fun _ => 0)

/-- `zeroStats` -/
def Sums.zeroStats (combs : Combinations) (sums : Sums) : Except Fault Sums := do
  let xSum ← clear combs.nsum sums.xSum
  let xySum ← sums.clearXy combs.ncov sums.xySum
  let xySum ← sums.clearXy combs.n2mom xySum
  let xyzSum ← clear combs.ntri sums.xyzSum
  let xyzSum ← clear combs.n3mom xyzSum
  let x4Sum ← clear combs.n4mom sums.x4Sum
  let nSamples ← clear combs.nsum sums.nSamples
  pure { sums with
    xSum := xSum, xySum := xySum, xyzSum := xyzSum, x4Sum := x4Sum, nSamples := nSamples }

end Nidas.Dynld.CrossTerms
