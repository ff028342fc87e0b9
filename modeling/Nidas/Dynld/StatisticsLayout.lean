import Mathlib.Tactic.Ring
import Nidas.Dynld.StatisticsCompute

/-!
# The layout of the combinations

The pairs and triples of input variables of which products are summed up, in the order of the arrays
(`pairs`, `triples`), and the output variables in the order of their names (`outVariables`).
`createCombinations` computes this layout (`createCombinations_eq`), and its formulas for the
numbers of the combinations count them.
-/

namespace Nidas.Dynld.CrossTerms

open Lib

/-! ## The layout -/

/-- The variable of a triple. -/
def tripleVariable (triple : ℕ × ℕ × ℕ) : OutVariable :=
  ⟨[triple.1, triple.2.1, triple.2.2], "3rd moment"⟩

namespace Request

variable (request : Request)

/-- The number of variables of which the moments are put out. -/
def momentCount : ℕ :=
  match request.type with
  | .rflux => 3
  | .sflux => 1
  | _ => request.ninvars

/-- The number of variables with their products with others. -/
def pairRows : ℕ :=
  match request.type with
  | .rflux => 3
  | .sflux => 1
  | _ => request.ninvars

/-- The pairs of variables whose products are summed up. -/
def pairs : List (ℕ × ℕ) := flatRows request.rowWidth Prod.mk request.pairRows

/-- All combinations of three variables. -/
def allTriples : List (ℕ × ℕ × ℕ) :=
  (List.range request.ninvars).flatMap fun i =>
    (List.range' i (request.ninvars - i)).flatMap fun j =>
      (List.range' j (request.ninvars - j)).map fun k => (i, j, k)

/-- Combinations of different variables, without cross terms of scalars: `wws`, `wss`, `[uv][uvw]w`,
`uws` and `vws`. -/
def crossTriples : List (ℕ × ℕ × ℕ) :=
  let scalars := List.range' 3 (request.ninvars - 3)
  scalars.map (fun j => (2, 2, j)) ++ (scalars.map (fun j => (2, j, j)) ++
    ((List.range' 0 2).flatMap (fun i => (List.range' i (3 - i)).map fun j => (i, j, 2)) ++
      (List.range' 0 2).flatMap fun i => scalars.map fun k => (i, 2, k)))

/-- All variables with themselves, and the combinations of different ones. -/
def prunedTriples : List (ℕ × ℕ × ℕ) :=
  (List.range request.ninvars).map (fun i => (i, i, i)) ++ request.crossTriples

/-- The triples of variables whose products are summed up. -/
def triples : List (ℕ × ℕ × ℕ) :=
  match request.type with
  | .trivar => request.allTriples
  | .prunedTrivar => request.prunedTriples
  | _ => []

/-- The number of moments of order 3 that are not triples. -/
def thirdCount : ℕ :=
  if request.higherMoments ∧ request.type ≠ .trivar ∧ request.type ≠ .prunedTrivar then
    request.momentCount
  else 0

/-- The number of moments of order 4. -/
def fourthCount : ℕ := if request.higherMoments then request.momentCount else 0

/-- The variable of a pair.  The scalar is behind the other variable in the name of a scalar
flux. -/
def pairVariable (pair : ℕ × ℕ) : OutVariable :=
  ⟨if request.type = .sflux then [pair.2, pair.1] else [pair.1, pair.2], "2nd moment"⟩

/-- The output variables. -/
def outVariables : List OutVariable :=
  (List.range request.momentCount).map (request.momentVariable 1) ++
    (request.pairs.map request.pairVariable ++ (request.triples.map tripleVariable ++
      ((List.range request.thirdCount).map (request.momentVariable 3) ++
        (List.range request.fourthCount).map (request.momentVariable 4))))

/-- What `createCombinations` makes of a request. -/
def combinations : Combinations where
  outVariables := request.outVariables
  nOutVar := request.outVariables.length
  triComb := if request.type = .prunedTrivar then request.triples else []
  nsum := request.ninvars
  ncov := request.pairs.length
  ntri := request.triples.length
  n1mom := request.momentCount
  n3mom := request.thirdCount
  n4mom := request.fourthCount
  ntot := request.outVariables.length

/-- There are input variables, and the first three are winds where the type needs them. -/
structure Admissible : Prop where
  pos : 0 < request.ninvars
  winds : request.type = .prunedTrivar ∨ request.type = .flux ∨ request.type = .rflux →
    3 ≤ request.ninvars

end Request

/-! ## Output variables are appended -/

/-- Some more output variables. -/
def Combinations.withVariables (combs : Combinations) (vars : List OutVariable) : Combinations :=
  { combs with
    outVariables := combs.outVariables ++ vars
    nOutVar := combs.nOutVar + vars.length }

/-- All output variables have got their names. -/
def Combinations.Filled (combs : Combinations) : Prop := combs.outVariables.length = combs.nOutVar

section Variables

variable {combs : Combinations} {vars others : List OutVariable} {var : OutVariable}

@[simp] theorem withVariables_nil : combs.withVariables [] = combs := by
  simp [Combinations.withVariables]

@[simp] theorem withVariables_withVariables :
    (combs.withVariables vars).withVariables others = combs.withVariables (vars ++ others) := by
  simp [Combinations.withVariables, Nat.add_assoc]

theorem Combinations.Filled.withVariables (h : combs.Filled) (vars : List OutVariable) :
    (combs.withVariables vars).Filled := by
  unfold Combinations.Filled at h ⊢
  simp [Combinations.withVariables, h]

theorem addVariable_eq (h : combs.Filled) : combs.addVariable var = combs.withVariables [var] := by
  unfold Combinations.Filled at h
  unfold Combinations.addVariable Combinations.withVariables
  simp [h]

theorem foldlM_addVariable (h : combs.Filled) (vars : List OutVariable) :
    vars.foldlM (fun combs var => (pure (combs.addVariable var) : Except Fault Combinations))
      combs = pure (combs.withVariables vars) := by
  induction vars generalizing combs with
  | nil => simp
  | cons var vars ih =>
      rw [List.foldlM_cons, addVariable_eq h, pure_bind, ih (h.withVariables _)]
      simp

end Variables

/-! ## The numbers of combinations -/

theorem two_mul_rowStart {n rows : ℕ} {width : ℕ → ℕ} (hwidth : ∀ i, i < n → width i = n - i)
    (hle : rows ≤ n) :
    2 * rowStart width rows + (n - rows) * (n - rows + 1) = n * (n + 1) := by
  induction rows with
  | zero => simp [rowStart]
  | succ rows ih =>
      have hprev := ih (by omega)
      obtain ⟨rest, hrest⟩ : ∃ rest, n - rows = rest + 1 := ⟨n - rows - 1, by omega⟩
      have hnext : n - (rows + 1) = rest := by omega
      rw [rowStart_succ, hwidth rows hle, hrest, hnext]
      rw [hrest] at hprev
      rw [← hprev]
      ring

theorem rowStart_of_triangle {n : ℕ} {width : ℕ → ℕ} (hwidth : ∀ i, i < n → width i = n - i) :
    rowStart width n = n * (n + 1) / 2 := by
  have htwo := two_mul_rowStart hwidth (Nat.le_refl n)
  rw [Nat.sub_self] at htwo
  omega

section Counts

variable {request : Request}

theorem rowWidth_of_le {i : ℕ} (hle : i ≤ 2) : request.rowWidth i = request.ninvars - i := by
  unfold Request.rowWidth
  rw [if_neg (by omega)]

theorem rowStart_three (hthree : 3 ≤ request.ninvars) :
    rowStart request.rowWidth 3 = 3 * request.ninvars - 3 := by
  rw [rowStart_succ, rowStart_succ, rowStart_succ, rowWidth_of_le (by omega),
    rowWidth_of_le (by omega), rowWidth_of_le (by omega)]
  simp only [rowStart, List.range_zero, List.map_nil, List.sum_nil]
  omega

theorem rowStart_flux (htype : request.type = .flux) {rows : ℕ} (hthree : 3 ≤ request.ninvars)
    (hle : 3 ≤ rows) : rowStart request.rowWidth rows = 3 * request.ninvars - 3 + (rows - 3) := by
  induction rows, hle using Nat.le_induction with
  | base => rw [rowStart_three hthree]; omega
  | succ rows hle ih =>
      have hwidth : request.rowWidth rows = 1 := if_pos ⟨.inl htype, by omega⟩
      rw [rowStart_succ, ih, hwidth]
      omega

theorem rowStart_ninvars (htype : request.type ≠ .flux) (hother : request.type ≠ .rflux) :
    rowStart request.rowWidth request.ninvars = request.ninvars * (request.ninvars + 1) / 2 :=
  rowStart_of_triangle fun _ _ => if_neg fun h => h.1.elim htype hother

theorem length_prunedTriples (hthree : 3 ≤ request.ninvars) :
    request.prunedTriples.length = 5 * request.ninvars - 7 := by
  simp [Request.prunedTriples, Request.crossTriples, List.range'_succ]
  omega

end Counts

/-! ## What the setup functions do -/

section Setup

variable {request : Request} {combs : Combinations}

/-- The members that are counted are set when there is a moment. -/
theorem setupMoments_eq (h : combs.Filled) {nv : ℕ} (hpos : 0 < nv) (nmoment : ℕ)
    (hmoment : nmoment = 1 ∨ nmoment = 3 ∨ nmoment = 4) :
    request.setupMoments nv nmoment combs =
      pure ((combs.countMoments nv nmoment).withVariables
        ((List.range nv).map (request.momentVariable nmoment))) := by
  -- all further moments
  have hmore : ∀ (is : List ℕ) (vars : List OutVariable),
      is.foldlM (fun combs i => (pure ((combs.countMoments nv nmoment).addVariable
          (request.momentVariable nmoment i)) : Except Fault Combinations))
        ((combs.countMoments nv nmoment).withVariables vars) =
      pure ((combs.countMoments nv nmoment).withVariables
        (vars ++ is.map (request.momentVariable nmoment))) := by
    intro is
    induction is with
    | nil => intro vars; simp
    | cons i is ih =>
        intro vars
        have hcount : ((combs.countMoments nv nmoment).withVariables vars).countMoments nv nmoment =
            (combs.countMoments nv nmoment).withVariables vars := by
          rcases hmoment with rfl | rfl | rfl <;> rfl
        have hfilled : ((combs.countMoments nv nmoment).withVariables vars).Filled := by
          apply Combinations.Filled.withVariables
          rcases hmoment with rfl | rfl | rfl <;> exact h
        rw [List.foldlM_cons, hcount, addVariable_eq hfilled, withVariables_withVariables,
          pure_bind, ih]
        simp
  have hfirst : (combs.countMoments nv nmoment).Filled := by
    rcases hmoment with rfl | rfl | rfl <;> exact h
  obtain ⟨count, rfl⟩ : ∃ count, nv = count + 1 := ⟨nv - 1, by omega⟩
  unfold Request.setupMoments forRange
  rw [Nat.sub_zero, List.range'_succ, List.foldlM_cons, pure_bind, addVariable_eq hfirst, hmore,
    List.range_eq_range', List.range'_succ, List.map_cons, List.singleton_append]

/-- The variables of the pairs in some rows. -/
theorem forRange_forRange_addVariable (h : combs.Filled) (rows : ℕ) (hi : ℕ → ℕ)
    (var : ℕ → ℕ → OutVariable) :
    forRange 0 rows (fun i => forRange i (hi i) fun j combs =>
        (pure (combs.addVariable (var i j)) : Except Fault Combinations)) combs =
      pure (combs.withVariables (flatRows (fun i => hi i - i) var rows)) := by
  have hrow : ∀ i combs, 0 ≤ i → i < rows →
      forRange i (hi i) (fun j combs =>
        (pure (combs.addVariable (var i j)) : Except Fault Combinations)) combs =
        ((List.range' i (hi i - i)).map (var i)).foldlM
          (fun combs var => pure (combs.addVariable var)) combs :=
    fun i combs _ _ => forRange_eq_foldlM_map
      (fun combs var => pure (Combinations.addVariable combs var)) (var i)
      (fun _ _ _ _ => rfl) combs
  rw [forRange_eq_foldlM _ _ hrow, foldlM_addVariable h, Nat.sub_zero, ← List.range_eq_range']
  rfl

theorem foldlM_addCovariance (h : combs.Filled) (nc : ℕ) (pairs : List (ℕ × ℕ)) :
    pairs.foldlM (fun state pair => addCovariance pair.1 pair.2 state) (combs, nc) =
      pure (combs.withVariables (pairs.map fun pair => ⟨[pair.1, pair.2], "2nd moment"⟩),
        nc + pairs.length) := by
  induction pairs generalizing combs nc with
  | nil => simp
  | cons pair pairs ih =>
      rw [List.foldlM_cons, addCovariance, addVariable_eq h, pure_bind,
        ih (h.withVariables _), withVariables_withVariables]
      simp [Nat.add_assoc, Nat.add_comm 1]

/-- The covariances in some rows, with the count of them. -/
theorem forRange_forRange_addCovariance (h : combs.Filled) (rows : ℕ) (hi : ℕ → ℕ) :
    forRange 0 rows (fun i => forRange i (hi i) fun j => addCovariance i j) (combs, 0) =
      pure (combs.withVariables ((flatRows (fun i => hi i - i) Prod.mk rows).map fun pair =>
        ⟨[pair.1, pair.2], "2nd moment"⟩), rowStart (fun i => hi i - i) rows) := by
  have hrow : ∀ i state, 0 ≤ i → i < rows →
      forRange i (hi i) (fun j => addCovariance i j) state =
        ((List.range' i (hi i - i)).map (Prod.mk i)).foldlM
          (fun state pair => addCovariance pair.1 pair.2 state) state :=
    fun i state _ _ => forRange_eq_foldlM_map
      (fun state pair => addCovariance pair.1 pair.2 state) (Prod.mk i) (fun _ _ _ _ => rfl) state
  rw [forRange_eq_foldlM _ _ hrow, foldlM_addCovariance h, Nat.sub_zero, ← List.range_eq_range',
    ← length_flatRows _ Prod.mk]
  simp [flatRows]

theorem setupCovariances_eq (h : combs.Filled) (htype : request.type ≠ .flux)
    (hother : request.type ≠ .rflux) (hscalar : request.type ≠ .sflux) :
    request.setupCovariances combs =
      pure ({ combs with nsum := request.ninvars, ncov := request.pairs.length }.withVariables
        (request.pairs.map request.pairVariable)) := by
  have hpairs : request.pairs = flatRows request.rowWidth Prod.mk request.ninvars := by
    unfold Request.pairs Request.pairRows
    split <;> first | rfl | contradiction
  have hwidth : request.rowWidth = fun i => request.ninvars - i := by
    funext i
    exact if_neg fun h => h.1.elim htype hother
  have hvar : (fun i j => request.pairVariable (i, j)) =
      fun i j => ⟨[i, j], "2nd moment"⟩ := by
    funext i j
    simp [Request.pairVariable, hscalar]
  have hncov : request.pairs.length = request.ninvars * (request.ninvars + 1) / 2 := by
    rw [hpairs, length_flatRows, rowStart_ninvars htype hother]
  unfold Request.setupCovariances
  rw [forRange_forRange_addVariable (by exact h), hncov, hpairs, map_flatRows, hvar, hwidth]

theorem setupFluxes_eq (h : combs.Filled) (htype : request.type = .flux)
    (hthree : 3 ≤ request.ninvars) :
    request.setupFluxes combs =
      pure ({ combs with nsum := request.ninvars, ncov := request.pairs.length }.withVariables
        (request.pairs.map request.pairVariable)) := by
  have hpairs : request.pairs = flatRows request.rowWidth Prod.mk request.ninvars := by
    unfold Request.pairs Request.pairRows
    rw [htype]
  have hwidth : request.rowWidth =
      fun i => (if i > 2 then i + 1 else request.ninvars) - i := by
    funext i
    unfold Request.rowWidth
    rw [htype]
    by_cases hi : i > 2
    · simp [hi]
    · simp [hi]
  have hncov : request.pairs.length = 4 * request.ninvars - 6 := by
    rw [hpairs, length_flatRows, rowStart_flux htype hthree hthree]
    omega
  have hvar : request.pairVariable = fun pair => ⟨[pair.1, pair.2], "2nd moment"⟩ := by
    funext pair
    simp [Request.pairVariable, htype]
  unfold Request.setupFluxes
  rw [forRange_forRange_addCovariance (by exact h), ← hwidth, ← hpairs, hncov, hvar]
  have hcount : rowStart request.rowWidth request.ninvars = 4 * request.ninvars - 6 := by
    rw [← hncov, hpairs, length_flatRows]
  rw [hcount, pure_bind]
  simp only [assert, Combinations.withVariables, decide_true, if_true]
  rfl

theorem setupReducedFluxes_eq (h : combs.Filled) (htype : request.type = .rflux)
    (hthree : 3 ≤ request.ninvars) :
    request.setupReducedFluxes combs =
      pure ({ combs with nsum := request.ninvars, ncov := request.pairs.length }.withVariables
        (request.pairs.map request.pairVariable)) := by
  have hpairs : request.pairs = flatRows (fun i => request.ninvars - i) Prod.mk 3 := by
    have hrows : request.pairs = flatRows request.rowWidth Prod.mk 3 := by
      unfold Request.pairs Request.pairRows
      rw [htype]
    rw [hrows]
    exact flatRows_congr fun i hi => rowWidth_of_le (by omega)
  have hncov : request.pairs.length = 3 * request.ninvars - 3 := by
    rw [hpairs, length_flatRows]
    simp [rowStart, List.range_succ]
    omega
  have hvar : request.pairVariable = fun pair => ⟨[pair.1, pair.2], "2nd moment"⟩ := by
    funext pair
    simp [Request.pairVariable, htype]
  have hcount : rowStart (fun i => request.ninvars - i) 3 = 3 * request.ninvars - 3 := by
    rw [← hncov, hpairs, length_flatRows]
  unfold Request.setupReducedFluxes
  rw [Nat.min_eq_right hthree, forRange_forRange_addCovariance (by exact h), ← hpairs, hncov, hvar,
    hcount, pure_bind]
  simp only [assert, Combinations.withVariables, decide_true, if_true]
  rfl

theorem setupReducedScalarFluxes_eq (h : combs.Filled) (htype : request.type = .sflux) :
    request.setupReducedScalarFluxes combs =
      pure ({ combs with nsum := request.ninvars, ncov := request.pairs.length }.withVariables
        (request.pairs.map request.pairVariable)) := by
  have hpairs : request.pairs = (List.range request.ninvars).map (Prod.mk 0) := by
    unfold Request.pairs Request.pairRows
    rw [htype]
    simp [flatRows, rowWidth_of_le, List.range_eq_range']
  have hloop : ∀ combs : Combinations, combs.Filled →
      forRange 0 request.ninvars
          (fun j combs => (pure (combs.addVariable ⟨[j, 0], "2nd moment"⟩) :
            Except Fault Combinations)) combs =
        pure (combs.withVariables (request.pairs.map request.pairVariable)) := by
    intro combs h
    rw [forRange_eq_foldlM_map (fun combs var => pure (Combinations.addVariable combs var))
      (fun j => ⟨[j, 0], "2nd moment"⟩) fun _ _ _ _ => rfl, foldlM_addVariable h, hpairs,
      Nat.sub_zero, ← List.range_eq_range']
    simp [Request.pairVariable, htype, Function.comp_def]
  unfold Request.setupReducedScalarFluxes
  rw [hloop _ (by exact h)]
  simp [hpairs]

theorem foldlM_addTrivariance (h : combs.Filled) (triples : List (ℕ × ℕ × ℕ)) :
    triples.foldlM (fun combs triple => (pure { combs.addVariable (tripleVariable triple) with
        ntri := combs.ntri + 1 } : Except Fault Combinations)) combs =
      pure ({ combs with ntri := combs.ntri + triples.length }.withVariables
        (triples.map tripleVariable)) := by
  induction triples generalizing combs with
  | nil => simp
  | cons triple triples ih =>
      rw [List.foldlM_cons, pure_bind, addVariable_eq h, ih (by exact h.withVariables _)]
      simp [Combinations.withVariables, Nat.add_assoc, Nat.add_comm 1]

theorem setupTrivariances_eq (h : combs.Filled) (htype : request.type = .trivar) :
    request.setupTrivariances combs =
      pure ({ combs with nsum := request.ninvars, ntri := request.triples.length }.withVariables
        (request.triples.map tripleVariable)) := by
  have htriples : request.triples = request.allTriples := by
    unfold Request.triples
    rw [htype]
  have hcolumn : ∀ i j combs, i ≤ j → j < request.ninvars →
      forRange j request.ninvars (fun k combs =>
        (pure { combs.addVariable ⟨[i, j, k], "3rd moment"⟩ with ntri := combs.ntri + 1 } :
          Except Fault Combinations)) combs =
        ((List.range' j (request.ninvars - j)).map fun k => (i, j, k)).foldlM
          (fun combs triple => pure { combs.addVariable (tripleVariable triple) with
            ntri := combs.ntri + 1 }) combs :=
    fun i j combs _ _ => forRange_eq_foldlM_map
      (fun combs triple => pure { Combinations.addVariable combs (tripleVariable triple) with
        ntri := combs.ntri + 1 }) (fun k => (i, j, k)) (fun _ _ _ _ => rfl) combs
  have hrow := fun i combs (_ : 0 ≤ i) (_ : i < request.ninvars) =>
    forRange_eq_foldlM _ _ (hcolumn i) combs
  unfold Request.setupTrivariances
  rw [forRange_eq_foldlM _ _ hrow, foldlM_addTrivariance (by exact h), htriples, Nat.sub_zero,
    ← List.range_eq_range']
  simp [Request.allTriples]

/-- Some triples have been written. -/
def withTriples (combs : Combinations) (cells done : List (ℕ × ℕ × ℕ)) : Combinations :=
  { combs with triComb := modifiedBy (done.map fun triple _ => triple) cells }

theorem withTriples_withVariables (cells done : List (ℕ × ℕ × ℕ)) (vars : List OutVariable) :
    withTriples (combs.withVariables vars) cells done =
      (withTriples combs cells done).withVariables vars := rfl

section Triples

variable {cells done triples : List (ℕ × ℕ × ℕ)}

theorem setTriple_eq (hlt : done.length < cells.length) (triple : ℕ × ℕ × ℕ) :
    setTriple triple.1 triple.2.1 triple.2.2 (withTriples combs cells done, done.length) =
      pure (withTriples combs cells (done ++ [triple]), (done ++ [triple]).length) := by
  have hlength : (done.map fun triple (_ : ℕ × ℕ × ℕ) => triple).length < cells.length := by
    rw [List.length_map]
    exact hlt
  have hwrite := modifyAt?_modifiedBy hlength fun _ => triple
  rw [List.length_map] at hwrite
  unfold setTriple withTriples
  rw [hwrite, List.map_append, List.length_append]
  rfl

theorem foldlM_setTriple (hle : done.length + triples.length ≤ cells.length) :
    triples.foldlM (fun state triple => setTriple triple.1 triple.2.1 triple.2.2 state)
        (withTriples combs cells done, done.length) =
      pure (withTriples combs cells (done ++ triples), (done ++ triples).length) := by
  induction triples generalizing done with
  | nil => simp
  | cons triple triples ih =>
      rw [List.length_cons] at hle
      rw [List.foldlM_cons, setTriple_eq (by omega), pure_bind, ih (by simp; omega)]
      simp

theorem foldlM_addTriple (h : combs.Filled)
    (hle : done.length + triples.length ≤ cells.length) :
    triples.foldlM (fun state triple => addTriple triple.1 triple.2.1 triple.2.2 state)
        (withTriples combs cells done, done.length) =
      pure ((withTriples combs cells (done ++ triples)).withVariables (triples.map tripleVariable),
        (done ++ triples).length) := by
  induction triples generalizing combs done with
  | nil => simp
  | cons triple triples ih =>
      rw [List.length_cons] at hle
      have hfilled : (withTriples combs cells (done ++ [triple])).Filled := h
      have hnext := ih (h.withVariables [tripleVariable triple])
        (show (done ++ [triple]).length + triples.length ≤ cells.length by simp; omega)
      have hone : addTriple triple.1 triple.2.1 triple.2.2
          (withTriples combs cells done, done.length) =
            pure (withTriples (combs.withVariables [tripleVariable triple]) cells
              (done ++ [triple]), (done ++ [triple]).length) := by
        unfold addTriple
        rw [setTriple_eq (by omega), pure_bind]
        dsimp only
        rw [addVariable_eq hfilled]
        rfl
      rw [List.foldlM_cons, hone, pure_bind, hnext, withTriples_withVariables]
      simp

end Triples

theorem addCrossTriples_eq_foldlM (state : Combinations × ℕ) :
    request.addCrossTriples state = request.crossTriples.foldlM
      (fun state triple => addTriple triple.1 triple.2.1 triple.2.2 state) state := by
  obtain ⟨step, hstep⟩ : ∃ step : Combinations × ℕ → ℕ × ℕ × ℕ → Except Fault (Combinations × ℕ),
    step = fun state triple => addTriple triple.1 triple.2.1 triple.2.2 state := ⟨_, rfl⟩
  have hloop : ∀ (lo hi : ℕ) (triple : ℕ → ℕ × ℕ × ℕ) state,
      forRange lo hi (fun i => addTriple (triple i).1 (triple i).2.1 (triple i).2.2) state =
        ((List.range' lo (hi - lo)).map triple).foldlM step state :=
    fun lo hi triple => forRange_eq_foldlM_map step triple fun _ _ _ _ => by rw [hstep]
  have hloops : ∀ (rows hi : ℕ) (lo : ℕ → ℕ) (triple : ℕ → ℕ → ℕ × ℕ × ℕ) state,
      forRange 0 rows (fun i => forRange (lo i) hi fun j =>
          addTriple (triple i j).1 (triple i j).2.1 (triple i j).2.2) state =
        ((List.range' 0 rows).flatMap fun i =>
          (List.range' (lo i) (hi - lo i)).map (triple i)).foldlM step state :=
    fun rows hi lo triple => forRange_eq_foldlM step _ fun i state _ _ => hloop _ _ (triple i) state
  have hwws := hloop 3 request.ninvars fun j => (2, 2, j)
  have hwss := hloop 3 request.ninvars fun j => (2, j, j)
  have huvw := hloops 2 3 (fun i => i) fun i j => (i, j, 2)
  have huvs := hloops 2 request.ninvars (fun _ => 3) fun i k => (i, 2, k)
  dsimp only at hwws hwss huvw huvs
  unfold Request.addCrossTriples Request.crossTriples
  simp only [hwws, hwss, huvw, huvs, List.foldlM_append, hstep]

theorem increasing_of_mem_prunedTriples {triple : ℕ × ℕ × ℕ}
    (hmem : triple ∈ request.prunedTriples) :
    triple.1 ≤ triple.2.1 ∧ triple.2.1 ≤ triple.2.2 := by
  simp only [Request.prunedTriples, Request.crossTriples, List.mem_append, List.mem_map,
    List.mem_flatMap, List.mem_range'_1] at hmem
  rcases hmem with ⟨i, -, rfl⟩ | ⟨j, hj, rfl⟩ | ⟨j, hj, rfl⟩ | ⟨i, hi, j, hj, rfl⟩ |
    ⟨i, hi, k, hk, rfl⟩
  · exact ⟨le_rfl, le_rfl⟩
  · dsimp only
    omega
  · dsimp only
    omega
  · dsimp only
    omega
  · dsimp only
    omega

/-- The combinations are of input variables in their order. -/
theorem increasing_of_mem_triples (hthree : request.type = .prunedTrivar → 3 ≤ request.ninvars)
    {triple : ℕ × ℕ × ℕ} (hmem : triple ∈ request.triples) :
    triple.1 ≤ triple.2.1 ∧ triple.2.1 ≤ triple.2.2 ∧ triple.2.2 < request.ninvars := by
  unfold Request.triples at hmem
  split at hmem
  · simp only [Request.allTriples, List.mem_flatMap, List.mem_map, List.mem_range,
      List.mem_range'_1] at hmem
    obtain ⟨i, hi, j, hj, k, hk, rfl⟩ := hmem
    dsimp only
    omega
  · rename_i htype
    have hwinds := hthree htype
    obtain ⟨hij, hjk⟩ := increasing_of_mem_prunedTriples hmem
    refine ⟨hij, hjk, ?_⟩
    simp only [Request.prunedTriples, Request.crossTriples, List.mem_append, List.mem_map,
      List.mem_flatMap, List.mem_range, List.mem_range'_1] at hmem
    rcases hmem with ⟨i, hi, rfl⟩ | ⟨j, hj, rfl⟩ | ⟨j, hj, rfl⟩ | ⟨i, hi, j, hj, rfl⟩ |
        ⟨i, hi, k, hk, rfl⟩ <;>
      dsimp only <;> omega
  · cases hmem

theorem setupPrunedTrivariances_eq (h : combs.Filled) (hthree : 3 ≤ request.ninvars) :
    request.setupPrunedTrivariances combs =
      pure ({ combs with
        nsum := request.ninvars
        ntri := request.prunedTriples.length
        triComb := request.prunedTriples
        n3mom := 0 }.withVariables (request.prunedTriples.map tripleVariable)) := by
  have hntri := length_prunedTriples hthree
  obtain ⟨cells, hcells⟩ : ∃ cells : List (ℕ × ℕ × ℕ), cells =
    List.replicate (5 * request.ninvars - 7) (0, 0, 0) := ⟨_, rfl⟩
  obtain ⟨cubes, hcubes⟩ : ∃ cubes : List (ℕ × ℕ × ℕ), cubes =
    (List.range request.ninvars).map fun i => (i, i, i) := ⟨_, rfl⟩
  have hsplit : request.prunedTriples = cubes ++ request.crossTriples := by
    rw [hcubes]
    rfl
  have hall : (cubes ++ request.crossTriples).length = cells.length := by
    rw [hcells, List.length_replicate, ← hsplit, hntri]
  rw [List.length_append] at hall
  have hnames : (List.range request.ninvars).map (request.momentVariable 3) =
      cubes.map tripleVariable := by
    rw [hcubes, List.map_map]
    rfl
  -- the third moments are written first, and named then
  have hset : ∀ start : Combinations, forRange 0 request.ninvars (fun i => setTriple i i i)
      ({ start with triComb := cells }, 0) =
        pure (withTriples start cells cubes, cubes.length) := by
    intro start
    have hempty : ([] : List (ℕ × ℕ × ℕ)).length + cubes.length ≤ cells.length := by
      rw [List.length_nil]
      omega
    have hloop : cubes.foldlM
        (fun state triple => setTriple triple.1 triple.2.1 triple.2.2 state)
        (withTriples start cells [], ([] : List (ℕ × ℕ × ℕ)).length) =
      pure (withTriples start cells ([] ++ cubes), ([] ++ cubes).length) :=
        foldlM_setTriple hempty
    simp only [withTriples, List.map_nil, modifiedBy_nil, List.length_nil, List.nil_append] at hloop
    rw [forRange_eq_foldlM_map (fun state triple => setTriple triple.1 triple.2.1 triple.2.2 state)
      (fun i => (i, i, i)) fun _ _ _ _ => rfl, Nat.sub_zero, ← List.range_eq_range', ← hcubes,
      hloop]
    rfl
  obtain ⟨named, hnamed⟩ : ∃ named : Combinations, named = { combs with
    nsum := request.ninvars, ntri := 5 * request.ninvars - 7, n3mom := 0 }.withVariables
      (cubes.map tripleVariable) := ⟨_, rfl⟩
  have hfilled : named.Filled := by
    rw [hnamed]
    exact Combinations.Filled.withVariables (by exact h) _
  have hwritten : (withTriples named cells (cubes ++ request.crossTriples)).triComb =
      request.prunedTriples := by
    rw [hsplit]
    exact modifiedBy_const (by rw [List.length_append]; exact hall)
  unfold Request.setupPrunedTrivariances
  rw [← hcells]
  dsimp only
  rw [hset { combs with nsum := request.ninvars, ntri := 5 * request.ninvars - 7 }, pure_bind]
  dsimp only
  rw [setupMoments_eq (by exact h) (by omega) 3 (by simp), pure_bind, hnames]
  change (request.addCrossTriples (withTriples ({ combs with
    nsum := request.ninvars, ntri := 5 * request.ninvars - 7, n3mom := 0 }.withVariables
      (cubes.map tripleVariable)) cells cubes, cubes.length) >>= _) = _
  rw [← hnamed, addCrossTriples_eq_foldlM, foldlM_addTriple hfilled hall.le, pure_bind]
  dsimp only
  have hcount : (cubes ++ request.crossTriples).length = 5 * request.ninvars - 7 := by
    rw [← hsplit, hntri]
  have hincreasing : (((withTriples named cells (cubes ++ request.crossTriples)).withVariables
      (request.crossTriples.map tripleVariable)).triComb.all fun triple =>
        triple.1 ≤ triple.2.1 ∧ triple.2.1 ≤ triple.2.2) = true := by
    apply List.all_eq_true.mpr
    intro triple hmem
    exact decide_eq_true (increasing_of_mem_prunedTriples (hwritten ▸ hmem))
  rw [hincreasing, hcount]
  have hresult : (withTriples named cells (cubes ++ request.crossTriples)).withVariables
      (request.crossTriples.map tripleVariable) = { combs with
        nsum := request.ninvars
        ntri := request.prunedTriples.length
        triComb := request.prunedTriples
        n3mom := 0 }.withVariables (request.prunedTriples.map tripleVariable) := by
    unfold withTriples
    rw [show modifiedBy ((cubes ++ request.crossTriples).map fun triple _ => triple) cells =
      request.prunedTriples from hwritten, hnamed, hntri, hsplit]
    simp [Combinations.withVariables, Nat.add_assoc]
  rw [← hresult, hnamed]
  simp [assert, Combinations.withVariables, withTriples]
  rfl

theorem setupHigherMoments_eq (h : combs.Filled) {nv : ℕ} (hpos : 0 < nv) :
    request.setupHigherMoments nv combs =
      pure (if request.higherMoments then
        { combs with n3mom := nv, n4mom := nv }.withVariables
          ((List.range nv).map (request.momentVariable 3) ++
            (List.range nv).map (request.momentVariable 4))
      else combs) := by
  unfold Request.setupHigherMoments
  split
  · rw [setupMoments_eq h hpos 3 (by simp), pure_bind,
      setupMoments_eq (by exact h.withVariables _) hpos 4 (by simp)]
    simp only [Combinations.countMoments, Combinations.withVariables, List.append_assoc,
      List.length_append, Nat.add_assoc]
  · rfl

theorem setupFourthMoments_eq (h : combs.Filled) (hpos : 0 < request.ninvars) :
    request.setupFourthMoments combs =
      pure (if request.higherMoments then
        { combs with n4mom := request.ninvars }.withVariables
          ((List.range request.ninvars).map (request.momentVariable 4))
      else combs) := by
  unfold Request.setupFourthMoments
  split
  · rw [setupMoments_eq h hpos 4 (by simp)]
    rfl
  · rfl

/-- The moments of order 1 and 2, which all types have. -/
def Request.secondOrder (request : Request) : Combinations :=
  { (({} : Combinations).countMoments request.momentCount 1).withVariables
      ((List.range request.momentCount).map (request.momentVariable 1)) with
    nsum := request.ninvars
    ncov := request.pairs.length }.withVariables (request.pairs.map request.pairVariable)

theorem filled_first (nv : ℕ) (vars : List OutVariable) :
    ((({} : Combinations).countMoments nv 1).withVariables vars).Filled := by
  simp [Combinations.Filled, Combinations.withVariables, Combinations.countMoments]

theorem filled_secondOrder (request : Request) : request.secondOrder.Filled := by
  simp [Request.secondOrder, Combinations.Filled, Combinations.withVariables,
    Combinations.countMoments]

theorem secondOrder_eq {nv : ℕ} (hcount : request.momentCount = nv) :
    { (({} : Combinations).countMoments nv 1).withVariables
        ((List.range nv).map (request.momentVariable 1)) with
      nsum := request.ninvars
      ncov := request.pairs.length }.withVariables (request.pairs.map request.pairVariable) =
      request.secondOrder := by
  unfold Request.secondOrder
  rw [hcount]

/-- The types without triples. -/
theorem secondOrder_higher {nv : ℕ} (hcount : request.momentCount = nv)
    (htri : request.type ≠ .trivar) (hpruned : request.type ≠ .prunedTrivar) :
    (if request.higherMoments then
      { request.secondOrder with n3mom := nv, n4mom := nv }.withVariables
        ((List.range nv).map (request.momentVariable 3) ++
          (List.range nv).map (request.momentVariable 4))
    else request.secondOrder) = { request.combinations with ntot := 0 } := by
  subst hcount
  have htriples : request.triples = [] := by
    unfold Request.triples
    split <;> first | contradiction | rfl
  cases hhigher : request.higherMoments with
  | true =>
      simp [Request.secondOrder, Request.combinations, Request.outVariables,
        Combinations.withVariables, Combinations.countMoments, htriples, Request.thirdCount,
        Request.fourthCount, hhigher, htri, hpruned, Nat.add_assoc]
  | false =>
      simp [Request.secondOrder, Request.combinations, Request.outVariables,
        Combinations.withVariables, Combinations.countMoments, htriples, Request.thirdCount,
        Request.fourthCount, hhigher, hpruned]

/-- The types with triples. -/
theorem secondOrder_triples {nv : ℕ} (hcount : request.momentCount = nv)
    (htype : request.type = .trivar ∨ request.type = .prunedTrivar) {combs : Combinations}
    (hcombs : combs = { request.secondOrder with
      ntri := request.triples.length
      triComb := if request.type = CrossType.prunedTrivar then request.triples else []
      n3mom := 0 }.withVariables (request.triples.map tripleVariable)) :
    (if request.higherMoments then
      { combs with n4mom := nv }.withVariables
        ((List.range nv).map (request.momentVariable 4))
    else combs) = { request.combinations with ntot := 0 } := by
  subst hcount
  have hthird : request.thirdCount = 0 := by
    unfold Request.thirdCount
    rcases htype with htype | htype <;> simp [htype]
  rw [hcombs]
  cases hhigher : request.higherMoments with
  | true =>
      simp [Request.secondOrder, Request.combinations, Request.outVariables,
        Combinations.withVariables, Combinations.countMoments, hthird, Request.fourthCount, hhigher,
        Nat.add_assoc]
  | false =>
      simp [Request.secondOrder, Request.combinations, Request.outVariables,
        Combinations.withVariables, Combinations.countMoments, hthird, Request.fourthCount, hhigher,
        Nat.add_assoc]

theorem setupType_eq (hrequest : request.Admissible) :
    request.setupType {} = pure { request.combinations with ntot := 0 } := by
  have hpos := hrequest.pos
  have hempty : ({} : Combinations).Filled := rfl
  unfold Request.setupType
  cases htype : request.type with
  | cov =>
      have hcount : request.momentCount = request.ninvars := by
        unfold Request.momentCount
        rw [htype]
      dsimp only
      rw [setupMoments_eq hempty hpos 1 (by simp), pure_bind,
        setupCovariances_eq (filled_first _ _) (by simp [htype]) (by simp [htype])
          (by simp [htype]), pure_bind, secondOrder_eq hcount,
        setupHigherMoments_eq (filled_secondOrder request) (by omega),
        secondOrder_higher hcount (by simp [htype]) (by simp [htype])]
  | flux =>
      have hcount : request.momentCount = request.ninvars := by
        unfold Request.momentCount
        rw [htype]
      dsimp only
      rw [setupMoments_eq hempty hpos 1 (by simp), pure_bind,
        setupFluxes_eq (filled_first _ _) htype (hrequest.winds (by simp [htype])), pure_bind,
        secondOrder_eq hcount, setupHigherMoments_eq (filled_secondOrder request) (by omega),
        secondOrder_higher hcount (by simp [htype]) (by simp [htype])]
  | rflux =>
      have hcount : request.momentCount = 3 := by
        unfold Request.momentCount
        rw [htype]
      dsimp only
      rw [setupMoments_eq hempty (by omega) 1 (by simp), pure_bind,
        setupReducedFluxes_eq (filled_first _ _) htype (hrequest.winds (by simp [htype])),
        pure_bind, secondOrder_eq hcount,
        setupHigherMoments_eq (filled_secondOrder request) (by omega),
        secondOrder_higher hcount (by simp [htype]) (by simp [htype])]
  | sflux =>
      have hcount : request.momentCount = 1 := by
        unfold Request.momentCount
        rw [htype]
      dsimp only
      rw [setupMoments_eq hempty (by omega) 1 (by simp), pure_bind,
        setupReducedScalarFluxes_eq (filled_first _ _) htype, pure_bind, secondOrder_eq hcount,
        setupHigherMoments_eq (filled_secondOrder request) (by omega),
        secondOrder_higher hcount (by simp [htype]) (by simp [htype])]
  | trivar =>
      have hcount : request.momentCount = request.ninvars := by
        unfold Request.momentCount
        rw [htype]
      dsimp only
      rw [setupMoments_eq hempty hpos 1 (by simp), pure_bind,
        setupCovariances_eq (filled_first _ _) (by simp [htype]) (by simp [htype])
          (by simp [htype]), pure_bind, secondOrder_eq hcount,
        setupTrivariances_eq (filled_secondOrder request) htype, pure_bind,
        setupFourthMoments_eq (by exact (filled_secondOrder request).withVariables _) hpos,
        secondOrder_triples hcount (.inl htype) (by simp [htype]; rfl)]
  | prunedTrivar =>
      have hcount : request.momentCount = request.ninvars := by
        unfold Request.momentCount
        rw [htype]
      have htriples : request.triples = request.prunedTriples := by
        unfold Request.triples
        rw [htype]
      dsimp only
      rw [setupMoments_eq hempty hpos 1 (by simp), pure_bind,
        setupCovariances_eq (filled_first _ _) (by simp [htype]) (by simp [htype])
          (by simp [htype]), pure_bind, secondOrder_eq hcount,
        setupPrunedTrivariances_eq (filled_secondOrder request) (hrequest.winds (by simp [htype])),
        pure_bind,
        setupFourthMoments_eq (by exact (filled_secondOrder request).withVariables _) hpos,
        secondOrder_triples hcount (.inr htype) (by simp [htype, htriples]; rfl)]

/-- **The combinations are those of the layout.** -/
theorem createCombinations_eq (hrequest : request.Admissible) :
    request.createCombinations = pure request.combinations := by
  have hlength : request.outVariables.length = request.momentCount + request.pairs.length +
      request.triples.length + request.thirdCount + request.fourthCount := by
    simp [Request.outVariables, Nat.add_assoc]
  unfold Request.createCombinations
  rw [setupType_eq hrequest, pure_bind]
  simp only [Request.combinations, Nat.add_zero, ← hlength, assert, decide_true, if_true]
  rfl

end Setup

end Nidas.Dynld.CrossTerms
