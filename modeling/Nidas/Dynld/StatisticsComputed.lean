import Nidas.Dynld.StatisticsReceived

/-!
# What is computed from the sums

`computeStats` reads the sums of the layout in the order of the layout, so that each value is the
moment that its output variable is named for (`computeStats_eq`).  The formulas of the moments are
those of `Lib.Moments`, and their values are not negative where the code sets negative ones to zero.
-/

namespace Nidas.Dynld.CrossTerms

open Core Lib

/-! ## The moments -/

/-- The statistic of some input variables: the mean of one, or the central moment of several. -/
def statistic (info : SampleInfo) (samples : List ValueSample) (arguments : List ℕ) : ℚ :=
  match arguments with
  | [i] => mean (fun samp => inputOf info samp i) samples
  | _ => centralMoment (arguments.map fun i samp => inputOf info samp i) samples

/-- `_xSum`, when it holds the means. -/
def means (info : SampleInfo) (samples : List ValueSample) (n : ℕ) : List ℚ :=
  (List.range n).map fun i => mean (fun samp => inputOf info samp i) samples

/-! ## Output -/

theorem putOut_of_lt {outlen : ℕ} {outData : List (Option ℚ)} (hlt : outData.length < outlen)
    (value : Option ℚ) : putOut outlen value outData = pure (outData ++ [value]) := if_pos hlt

/-- Values are put out one after the other. -/
theorem foldlM_putOut {outlen : ℕ} {values outData : List (Option ℚ)}
    (hle : outData.length + values.length ≤ outlen) :
    values.foldlM (fun outData value => putOut outlen value outData) outData =
      pure (outData ++ values) := by
  induction values generalizing outData with
  | nil => simp
  | cons value values ih =>
      rw [List.length_cons] at hle
      rw [List.foldlM_cons, putOut_of_lt (by omega), pure_bind, ih (by simp; omega)]
      simp

section Computed

variable {request : Request} {info : SampleInfo} {samples : List ValueSample}

theorem access_means {n i : ℕ} (hlt : i < n) :
    access (means info samples n)[i]? =
      pure (mean (fun samp => inputOf info samp i) samples) := by
  unfold means
  rw [List.getElem?_map, List.getElem?_range hlt, Option.map_some, access_some]

theorem pairRows_le_rowCount (hrequest : request.Admissible) :
    request.pairRows ≤ request.rowCount := by
  unfold Request.pairRows Request.rowCount
  cases htype : request.type with
  | rflux => simpa using hrequest.winds (by simp [htype])
  | _ => simp

/-- **`_xySum[i][j]` is the sum of the products of two variables.** -/
theorem xyValue_eq (hrequest : request.Admissible) {i j : ℕ} (hrow : i < request.pairRows)
    (hle : i ≤ j) (hlt : j < i + request.rowWidth i) :
    (request.sumsOf info samples).xyValue i j =
      pure (total (fun samp => inputOf info samp i * inputOf info samp j) samples) := by
  have hrowCount : i < request.rowCount := hrow.trans_le (pairRows_le_rowCount hrequest)
  have hposition : (request.sumsOf info samples).xyPosition i j =
      some (rowStart request.rowWidth i + (j - i)) := by
    have hcell : (request.sumsOf info samples).rows[i]? =
        some ((rowStart request.rowWidth i : ℤ) - i) := by
      dsimp only [Request.sumsOf]
      rw [List.getElem?_map, List.getElem?_range hrowCount, Option.map_some]
    unfold Sums.xyPosition position
    rw [hcell]
    simp only [Option.bind_eq_bind, Option.bind_some]
    rw [if_pos (by omega)]
    congr 1
    omega
  have hpair : request.pairs[rowStart request.rowWidth i + (j - i)]? = some (i, j) :=
    getElem?_flatRows hrow hle hlt
  unfold Sums.xyValue
  rw [hposition, access_some, pure_bind]
  dsimp only [Request.sumsOf]
  rw [List.getElem?_map, hpair, Option.map_some, access_some]

/-! ## Means -/

theorem momentCount_le (hrequest : request.Admissible) :
    request.momentCount ≤ request.ninvars := by
  unfold Request.momentCount
  cases htype : request.type with
  | rflux => exact hrequest.winds (by simp [htype])
  | sflux => exact hrequest.pos
  | _ => exact Nat.le_refl _

theorem computeMeans_eq (hrequest : request.Admissible) :
    request.computeMeans request.combinations (request.sumsOf info samples) samples.length =
      pure (means info samples request.ninvars, (List.range request.momentCount).map fun i =>
        some (statistic info samples [i])) := by
  have hmoments := momentCount_le hrequest
  have hcount : request.combinations.n1mom = request.momentCount := rfl
  have houtlen : request.momentCount ≤ request.outVariables.length := by
    simp [Request.outVariables]
  let state : ℕ → List ℚ × List (Option ℚ) := fun i =>
    ((List.range request.ninvars).map fun k =>
      if k < i then mean (fun samp => inputOf info samp k) samples
      else total (fun samp => inputOf info samp k) samples,
    (List.range (min i request.momentCount)).map fun i => some (statistic info samples [i]))
  have hfirst : ((request.sumsOf info samples).xSum, ([] : List (Option ℚ))) = state 0 := by
    simp [state, Request.sumsOf]
  have hlast : (means info samples request.ninvars, (List.range request.momentCount).map fun i =>
      some (statistic info samples [i])) = state request.ninvars := by
    dsimp only [state]
    rw [Nat.min_eq_right hmoments]
    congr 1
    apply List.map_congr_left
    intro k hk
    rw [if_pos (List.mem_range.mp hk)]
  unfold Request.computeMeans
  rw [hfirst, hlast]
  refine forRange_eq_pure state (fun i _ hi => ?_) (Nat.zero_le _)
  have hdivide : modifyAt? (state i).1 i (· / ((samples.length : ℤ) : ℚ)) =
      some (state (i + 1)).1 := by
    dsimp only [state]
    rw [modifyAt?_map_range hi]
    congr 1
    apply List.map_congr_left
    intro k _
    rcases Nat.lt_trichotomy k i with hlt | rfl | hgt
    · rw [if_neg (by omega), if_pos hlt, if_pos (by omega)]
    · rw [if_pos rfl, if_neg (by omega), if_pos (by omega), Int.cast_natCast]
      rfl
    · rw [if_neg (by omega), if_neg (by omega), if_neg (by omega)]
  have hcell : (state (i + 1)).1[i]? = some (mean (fun samp => inputOf info samp i) samples) := by
    dsimp only [state]
    rw [List.getElem?_map, List.getElem?_range hi, Option.map_some, if_pos (by omega)]
  rw [hdivide, access_some, pure_bind]
  by_cases hlt : i < request.momentCount
  · have hput : putOut (request.sumsOf info samples).outlen
        (some (mean (fun samp => inputOf info samp i) samples)) (state i).2 =
          pure (state (i + 1)).2 := by
      have hbefore : min i request.momentCount = i := by omega
      have hafter : min (i + 1) request.momentCount = i + 1 := by omega
      have hinside : (state i).2.length < (request.sumsOf info samples).outlen := by
        simp only [state, Request.sumsOf, List.length_map, List.length_range]
        omega
      rw [putOut_of_lt hinside]
      dsimp only [state]
      rw [hbefore, hafter, List.range_succ, List.map_append]
      rfl
    rw [hcount, if_pos hlt, hcell, access_some, pure_bind, hput, pure_bind]
  · have hsame : (state (i + 1)).2 = (state i).2 := by
      dsimp only [state]
      rw [Nat.min_eq_right (by omega), Nat.min_eq_right (by omega)]
    rw [hcount, if_neg hlt, ← hsame]

/-! ## Moments of order 2 -/

/-- A scalar flux of two or three variables is evaluated as if it had more rows. -/
theorem momentRows_eq (hrequest : request.Admissible)
    (hscalar : ¬ (request.type = .sflux ∧ (request.ninvars = 2 ∨ request.ninvars = 3))) :
    request.momentRows = request.pairRows := by
  have hpos := hrequest.pos
  have hwinds := hrequest.winds
  unfold Request.momentRows Request.pairRows
  cases htype : request.type <;> simp [htype] at hscalar hwinds ⊢ <;> omega

/-- The value for a covariance. -/
theorem second_eq (hsamples : samples ≠ []) (i j : ℕ) :
    (let xr := total (fun samp => inputOf info samp i * inputOf info samp j) samples /
        ((samples.length : ℤ) : ℚ) -
      mean (fun samp => inputOf info samp i) samples *
        mean (fun samp => inputOf info samp j) samples
    if (i = j ∧ xr < 0) ∨ (samples.length : ℤ) < 2 then 0 else xr) =
      statistic info samples [i, j] := by
  have hmoment := centralMoment_pair hsamples (fun samp => inputOf info samp i)
    fun samp => inputOf info samp j
  dsimp only [statistic, List.map_cons, List.map_nil]
  rw [Int.cast_natCast, ← hmoment]
  split
  case isFalse => rfl
  case isTrue h =>
    rcases h with ⟨rfl, hneg⟩ | hfew
    · exact absurd hneg (not_lt.mpr (centralMoment_pair_nonneg _ _))
    · exact (centralMoment_of_length_lt_two (by omega) _).symm

theorem computeSecond_eq (hrequest : request.Admissible) (hsamples : samples ≠ [])
    (hrows : request.momentRows = request.pairRows) (outData : List (Option ℚ)) :
    request.computeSecond (request.sumsOf info samples) samples.length
        (means info samples request.ninvars) outData =
      (request.pairs.map fun pair => some (statistic info samples [pair.1, pair.2])).foldlM
        (fun outData value => putOut (request.outVariables.length + 1) value outData) outData := by
  have hle : request.pairRows ≤ request.ninvars := by
    unfold Request.pairRows
    cases htype : request.type with
    | rflux => exact hrequest.winds (by simp [htype])
    | sflux => exact hrequest.pos
    | _ => exact Nat.le_refl _
  have hwidth : ∀ i, i < request.pairRows →
      (if request.type = .flux ∧ i > 2 then i + 1 else request.ninvars) =
        i + request.rowWidth i := by
    intro i hi
    have hlt : i < request.ninvars := hi.trans_le hle
    unfold Request.rowWidth
    unfold Request.pairRows at hi
    cases htype : request.type <;> simp only [htype, reduceCtorEq, false_and, false_or, or_false,
      true_and, if_false] at hi ⊢ <;> try split
    all_goals omega
  have hcell : ∀ i, i < request.pairRows → ∀ j outData, i ≤ j → j < i + request.rowWidth i →
      (do
        let xy ← (request.sumsOf info samples).xyValue i j
        let xi ← access (means info samples request.ninvars)[i]?
        let xj ← access (means info samples request.ninvars)[j]?
        let xr := xy / ((samples.length : ℤ) : ℚ) - xi * xj
        putOut (request.sumsOf info samples).outlen
          (some (if (i = j ∧ xr < 0) ∨ (samples.length : ℤ) < 2 then 0 else xr)) outData) =
      putOut (request.outVariables.length + 1) (some (statistic info samples [i, j])) outData := by
    intro i hi j outData hij hj
    have hjlt : j < request.ninvars := by
      have hbound : i + request.rowWidth i ≤ request.ninvars := by
        rw [← hwidth i hi]
        split <;> omega
      omega
    rw [xyValue_eq hrequest hi hij hj, pure_bind, access_means (hi.trans_le hle), pure_bind,
      access_means hjlt, pure_bind, ← second_eq hsamples]
    rfl
  have hrow : ∀ i outData, 0 ≤ i → i < request.pairRows →
      forRange i (if request.type = .flux ∧ i > 2 then i + 1 else request.ninvars)
        (fun j outData => do
          let xy ← (request.sumsOf info samples).xyValue i j
          let xi ← access (means info samples request.ninvars)[i]?
          let xj ← access (means info samples request.ninvars)[j]?
          let xr := xy / ((samples.length : ℤ) : ℚ) - xi * xj
          putOut (request.sumsOf info samples).outlen
            (some (if (i = j ∧ xr < 0) ∨ (samples.length : ℤ) < 2 then 0 else xr)) outData)
        outData =
      ((List.range' i (request.rowWidth i)).map fun j =>
          some (statistic info samples [i, j])).foldlM
        (fun outData value => putOut (request.outVariables.length + 1) value outData) outData := by
    intro i outData _ hi
    rw [hwidth i hi, forRange_eq_foldlM_map
      (fun outData value => putOut (request.outVariables.length + 1) value outData)
      (fun j => some (statistic info samples [i, j])) (hcell i hi), Nat.add_sub_cancel_left]
  unfold Request.computeSecond
  rw [hrows, forRange_eq_foldlM _ _ hrow, Nat.sub_zero, ← List.range_eq_range', Request.pairs,
    map_flatRows]
  rfl

/-! ## Moments of order 3 and 4 -/

theorem third_eq (hsamples : samples ≠ []) (i : ℕ) :
    (let xr := total (fun samp => inputOf info samp i * inputOf info samp i *
        inputOf info samp i) samples / ((samples.length : ℤ) : ℚ) -
      3 * mean (fun samp => inputOf info samp i) samples *
        total (fun samp => inputOf info samp i * inputOf info samp i) samples /
          ((samples.length : ℤ) : ℚ) +
      2 * mean (fun samp => inputOf info samp i) samples *
        mean (fun samp => inputOf info samp i) samples *
        mean (fun samp => inputOf info samp i) samples
    if (samples.length : ℤ) < 2 then 0 else xr) = statistic info samples [i, i, i] := by
  have hmoment := centralMoment_triple hsamples (fun samp => inputOf info samp i)
    (fun samp => inputOf info samp i) fun samp => inputOf info samp i
  dsimp only [statistic, List.map_cons, List.map_nil]
  rw [Int.cast_natCast]
  split
  case isTrue hfew => exact (centralMoment_of_length_lt_two (by omega) _).symm
  case isFalse =>
    refine Eq.trans ?_ hmoment.symm
    ring

theorem fourth_eq (hsamples : samples ≠ []) (i : ℕ) :
    (let xr := total (fun samp => inputOf info samp i * inputOf info samp i *
        inputOf info samp i * inputOf info samp i) samples / ((samples.length : ℤ) : ℚ) -
      4 * mean (fun samp => inputOf info samp i) samples *
        total (fun samp => inputOf info samp i * inputOf info samp i * inputOf info samp i)
          samples /
          ((samples.length : ℤ) : ℚ) +
      6 * mean (fun samp => inputOf info samp i) samples *
        mean (fun samp => inputOf info samp i) samples *
        total (fun samp => inputOf info samp i * inputOf info samp i) samples /
          ((samples.length : ℤ) : ℚ) -
      3 * mean (fun samp => inputOf info samp i) samples *
        mean (fun samp => inputOf info samp i) samples *
        mean (fun samp => inputOf info samp i) samples *
        mean (fun samp => inputOf info samp i) samples
    if (samples.length : ℤ) < 2 ∨ xr < 0 then 0 else xr) = statistic info samples [i, i, i, i] := by
  have hmoment := centralMoment_fourth hsamples fun samp => inputOf info samp i
  dsimp only [statistic, List.map_cons, List.map_nil]
  rw [Int.cast_natCast, ← hmoment]
  split
  case isFalse => rfl
  case isTrue h =>
    rcases h with hfew | hneg
    · exact (centralMoment_of_length_lt_two (by omega) _).symm
    · exact absurd hneg (not_lt.mpr (centralMoment_fourth_nonneg _ _))

theorem pairRows_eq_momentCount (request : Request) : request.pairRows = request.momentCount := by
  unfold Request.pairRows Request.momentCount
  cases request.type <;> rfl

theorem thirdCount_eq (htriples : request.type ≠ .trivar ∧ request.type ≠ .prunedTrivar) :
    request.thirdCount = request.fourthCount := by
  unfold Request.thirdCount Request.fourthCount
  simp [htriples]

theorem fourthCount_of_pos (hpos : 0 < request.fourthCount) :
    request.fourthCount = request.momentCount := by
  unfold Request.fourthCount at hpos ⊢
  split at hpos
  · rw [if_pos ‹_›]
  · cases hpos

theorem triples_eq_nil (htype : request.type ≠ .trivar ∧ request.type ≠ .prunedTrivar) :
    request.triples = [] := by
  unfold Request.triples
  split
  · exact absurd ‹_› htype.1
  · exact absurd ‹_› htype.2
  · rfl

/-- A variable is in its own row. -/
theorem rowWidth_pos {i : ℕ} (hlt : i < request.ninvars) : 0 < request.rowWidth i := by
  unfold Request.rowWidth
  split <;> omega

section Moments

variable (hrequest : request.Admissible) (hsamples : samples ≠ [])
  (hrows : request.momentRows = request.pairRows)
  (htype : request.type ≠ .trivar ∧ request.type ≠ .prunedTrivar)

include hrequest in
theorem access_moment {i : ℕ} (hlt : i < request.pairRows) :
    access (means info samples request.ninvars)[i]? =
        pure (mean (fun samp => inputOf info samp i) samples) ∧
      (request.sumsOf info samples).xyValue i i =
        pure (total (fun samp => inputOf info samp i * inputOf info samp i) samples) := by
  have hi : i < request.ninvars :=
    (pairRows_eq_momentCount request ▸ hlt).trans_le (momentCount_le hrequest)
  have hwidth := rowWidth_pos hi
  exact ⟨access_means hi, xyValue_eq hrequest hlt (Nat.le_refl i) (by omega)⟩

include htype in
theorem access_third {i : ℕ} (hlt : i < request.thirdCount) :
    access (request.sumsOf info samples).xyzSum[i]? =
      pure (total (fun samp => inputOf info samp i * inputOf info samp i *
        inputOf info samp i) samples) := by
  dsimp only [Request.sumsOf, Request.allThirds]
  rw [triples_eq_nil htype, List.nil_append, List.map_map, List.getElem?_map,
    List.getElem?_range hlt, Option.map_some, access_some]
  rfl

theorem access_fourth {i : ℕ} (hlt : i < request.fourthCount) :
    access (request.sumsOf info samples).x4Sum[i]? =
      pure (total (fun samp => inputOf info samp i * inputOf info samp i *
        inputOf info samp i * inputOf info samp i) samples) := by
  dsimp only [Request.sumsOf]
  rw [List.getElem?_map, List.getElem?_range hlt, Option.map_some, access_some]

include hrequest hsamples hrows htype in
theorem computeThird_eq (outData : List (Option ℚ)) :
    request.computeThird request.combinations (request.sumsOf info samples) samples.length
        (means info samples request.ninvars) outData =
      ((List.range request.thirdCount).map fun i => some (statistic info samples [i, i, i])).foldlM
        (fun outData value => putOut (request.outVariables.length + 1) value outData) outData := by
  have hcount : request.combinations.n3mom = request.thirdCount := rfl
  unfold Request.computeThird
  rw [hcount]
  by_cases hpos : request.thirdCount > 0
  · have hthird : request.thirdCount = request.pairRows := by
      rw [pairRows_eq_momentCount, thirdCount_eq htype]
      exact fourthCount_of_pos (thirdCount_eq htype ▸ hpos)
    rw [if_pos hpos, hrows, hthird, List.range_eq_range']
    apply forRange_eq_foldlM_map
      (fun outData value => putOut (request.outVariables.length + 1) value outData)
    intro i outData _ hi
    obtain ⟨hmean, hxy⟩ := access_moment hrequest hi
    rw [hmean, pure_bind, access_third htype (hthird ▸ hi), pure_bind, hxy, pure_bind,
      ← third_eq hsamples]
    rfl
  · have hzero : request.thirdCount = 0 := by omega
    rw [if_neg hpos, hzero]
    rfl

include hrequest hsamples hrows htype in
theorem computeFourth_eq (outData : List (Option ℚ)) :
    request.computeFourth request.combinations (request.sumsOf info samples) samples.length
        (means info samples request.ninvars) outData =
      ((List.range request.fourthCount).map fun i =>
          some (statistic info samples [i, i, i, i])).foldlM
        (fun outData value => putOut (request.outVariables.length + 1) value outData) outData := by
  have hcount : request.combinations.n4mom = request.fourthCount := rfl
  unfold Request.computeFourth
  rw [hcount]
  by_cases hpos : request.fourthCount > 0
  · have hfourth : request.fourthCount = request.pairRows := by
      rw [pairRows_eq_momentCount]
      exact fourthCount_of_pos hpos
    have hthird : request.thirdCount = request.pairRows := (thirdCount_eq htype).trans hfourth
    rw [if_pos hpos, hrows, hfourth, List.range_eq_range']
    apply forRange_eq_foldlM_map
      (fun outData value => putOut (request.outVariables.length + 1) value outData)
    intro i outData _ hi
    obtain ⟨hmean, hxy⟩ := access_moment hrequest hi
    rw [hmean, pure_bind, access_fourth (hfourth ▸ hi), pure_bind,
      access_third htype (hthird ▸ hi), pure_bind, hxy, pure_bind, ← fourth_eq hsamples]
    rfl
  · have hzero : request.fourthCount = 0 := by omega
    rw [if_neg hpos, hzero]
    rfl

end Moments

/-! ## Triples -/

theorem triple_eq (hsamples : samples ≠ []) (i j k : ℕ) :
    (let xr := (total (fun samp => inputOf info samp i * inputOf info samp j *
          inputOf info samp k) samples -
        mean (fun samp => inputOf info samp i) samples *
          total (fun samp => inputOf info samp j * inputOf info samp k) samples -
        mean (fun samp => inputOf info samp j) samples *
          total (fun samp => inputOf info samp i * inputOf info samp k) samples -
        mean (fun samp => inputOf info samp k) samples *
          total (fun samp => inputOf info samp i * inputOf info samp j) samples) /
          ((samples.length : ℤ) : ℚ) +
      2 * mean (fun samp => inputOf info samp i) samples *
        mean (fun samp => inputOf info samp j) samples *
        mean (fun samp => inputOf info samp k) samples
    if (samples.length : ℤ) < 2 then 0 else xr) = statistic info samples [i, j, k] := by
  have hmoment := centralMoment_triple hsamples (fun samp => inputOf info samp i)
    (fun samp => inputOf info samp j) fun samp => inputOf info samp k
  dsimp only [statistic, List.map_cons, List.map_nil]
  rw [Int.cast_natCast]
  split
  case isTrue hfew => exact (centralMoment_of_length_lt_two (by omega) _).symm
  case isFalse => exact hmoment.symm

/-- The sum of the products of a triple. -/
def tripleTotal (info : SampleInfo) (samples : List ValueSample) (triple : ℕ × ℕ × ℕ) : ℚ :=
  total (fun samp => inputOf info samp triple.1 * inputOf info samp triple.2.1 *
    inputOf info samp triple.2.2) samples

/-- The fourth moment of a variable, from its sum and the third one. -/
def fourthOf (info : SampleInfo) (samples : List ValueSample) (triple : ℕ × ℕ × ℕ) (x4 : ℚ) : ℚ :=
  x4 / ((samples.length : ℤ) : ℚ) -
    4 * mean (fun samp => inputOf info samp triple.1) samples *
      tripleTotal info samples triple /
          ((samples.length : ℤ) : ℚ) +
    6 * mean (fun samp => inputOf info samp triple.1) samples *
      mean (fun samp => inputOf info samp triple.1) samples *
      total (fun samp => inputOf info samp triple.1 * inputOf info samp triple.1) samples /
        ((samples.length : ℤ) : ℚ) -
    3 * mean (fun samp => inputOf info samp triple.1) samples *
      mean (fun samp => inputOf info samp triple.1) samples *
      mean (fun samp => inputOf info samp triple.1) samples *
      mean (fun samp => inputOf info samp triple.1) samples

/-- A step on `_x4Sum`, with a triple of one variable. -/
def fourthStep? (request : Request) (info : SampleInfo) (samples : List ValueSample)
    (triple : ℕ × ℕ × ℕ) : Option (ℕ × (ℚ → ℚ)) :=
  if request.higherMoments ∧ triple.1 = triple.2.1 ∧ triple.2.1 = triple.2.2 then
    some (triple.1, fourthOf info samples triple)
  else none

/-- What is put out for a triple. -/
def tripleStep (request : Request) (info : SampleInfo) (samples : List ValueSample)
    (state : Computing) (triple : ℕ × ℕ × ℕ) : Except Fault Computing :=
  request.computeTriple (request.sumsOf info samples) samples.length
    (means info samples request.ninvars) (triple.1 = triple.2.1 ∧ triple.2.1 = triple.2.2)
    triple.1 triple.2.1 triple.2.2 state

section Triples

variable (hrequest : request.Admissible) (hsamples : samples ≠ [])
  (htype : request.type = .trivar ∨ request.type = .prunedTrivar)

include htype in
/-- With triples, all variables have rows. -/
theorem xyValue_triples (hrequest : request.Admissible) {i j : ℕ} (hle : i ≤ j)
    (hlt : j < request.ninvars) :
    (request.sumsOf info samples).xyValue i j =
      pure (total (fun samp => inputOf info samp i * inputOf info samp j) samples) := by
  have hrow : i < request.pairRows := by
    unfold Request.pairRows
    rcases htype with htype | htype <;> rw [htype] <;> exact hle.trans_lt hlt
  have hwidth : request.rowWidth i = request.ninvars - i :=
    if_neg (by rcases htype with htype | htype <;> simp [htype])
  exact xyValue_eq hrequest hrow hle (by omega)

include hrequest hsamples htype in
/-- **A triple**: its moment is put out, and for a triple of one variable the fourth moment is
computed. -/
theorem tripleStep_eq {triple : ℕ × ℕ × ℕ} (hij : triple.1 ≤ triple.2.1)
    (hjk : triple.2.1 ≤ triple.2.2) (hk : triple.2.2 < request.ninvars) {state : Computing}
    (hcell : (request.sumsOf info samples).xyzSum[state.xyzSump]? =
      some (tripleTotal info samples triple))
    (hlt : state.outData.length < request.outVariables.length + 1) {x4Sum : List ℚ}
    (hx4 : (fourthStep? request info samples triple).toList.foldlM cellStep state.x4Sum =
      some x4Sum) :
    tripleStep request info samples state triple =
      pure ⟨state.xyzSump + 1, x4Sum, state.outData ++
        [some (statistic info samples [triple.1, triple.2.1, triple.2.2])]⟩ := by
  have hvalue := @triple_eq info samples hsamples triple.1 triple.2.1 triple.2.2
  have hput : ∀ value, putOut (request.sumsOf info samples).outlen value state.outData =
      pure (state.outData ++ [value]) := fun value => putOut_of_lt hlt value
  unfold tripleStep Request.computeTriple
  rw [hcell, access_some, pure_bind, access_means (by omega), pure_bind, access_means (by omega),
    pure_bind, access_means hk, pure_bind, xyValue_triples htype hrequest hjk hk, pure_bind,
    xyValue_triples htype hrequest (hij.trans hjk) hk, pure_bind,
    xyValue_triples htype hrequest hij (by omega), pure_bind]
  dsimp only
  rw [hput, pure_bind, ← hvalue]
  unfold fourthStep? at hx4
  by_cases hmoment : request.higherMoments ∧ triple.1 = triple.2.1 ∧ triple.2.1 = triple.2.2
  · have hsecond : (request.sumsOf info samples).xyValue triple.1 triple.1 =
        pure (total (fun samp => inputOf info samp triple.1 * inputOf info samp triple.1)
          samples) := xyValue_triples htype hrequest (Nat.le_refl _) (by omega)
    have hmodify : modifyAt? state.x4Sum triple.1 (fourthOf info samples triple) =
        some x4Sum := by
      rw [if_pos hmoment] at hx4
      simpa [cellStep] using hx4
    rw [if_pos (by simpa using hmoment), hsecond, pure_bind]
    unfold fourthOf at hmodify
    rw [hmodify, access_some, pure_bind]
    rfl
  · have hsame : state.x4Sum = x4Sum := by
      rw [if_neg hmoment] at hx4
      simpa using hx4
    rw [if_neg (by simpa using hmoment), hsame]
    rfl

theorem filterMap_cons_toList {ι β : Type} (step : ι → Option β) (i : ι) (indices : List ι) :
    (i :: indices).filterMap step = (step i).toList ++ indices.filterMap step := by
  rw [List.filterMap_cons]
  cases step i <;> rfl

include hrequest hsamples htype in
/-- The triples one after the other. -/
theorem foldlM_tripleStep {todo : List (ℕ × ℕ × ℕ)}
    (hmem : ∀ triple ∈ todo, triple ∈ request.triples) {state : Computing}
    (hcells : (request.sumsOf info samples).xyzSum.drop state.xyzSump =
      todo.map (tripleTotal info samples))
    (hle : state.outData.length + todo.length ≤ request.outVariables.length) {x4Sum : List ℚ}
    (hx4 : (todo.filterMap (fourthStep? request info samples)).foldlM cellStep state.x4Sum =
      some x4Sum) :
    todo.foldlM (tripleStep request info samples) state =
      pure ⟨state.xyzSump + todo.length, x4Sum, state.outData ++ todo.map fun triple =>
        some (statistic info samples [triple.1, triple.2.1, triple.2.2])⟩ := by
  induction todo generalizing state with
  | nil =>
      cases hx4
      simp
  | cons triple todo ih =>
      rw [filterMap_cons_toList, List.foldlM_append] at hx4
      obtain ⟨cells, hfirst, hrest⟩ := Option.bind_eq_some_iff.mp hx4
      rw [List.length_cons] at hle
      obtain ⟨hij, hjk, hk⟩ :=
        increasing_of_mem_triples (fun h => hrequest.winds (.inl h)) (hmem triple (by simp))
      have hcell : (request.sumsOf info samples).xyzSum[state.xyzSump]? =
          some (tripleTotal info samples triple) := by
        have hhead := congrArg (·[0]?) hcells
        simpa using hhead
      have htail : (request.sumsOf info samples).xyzSum.drop (state.xyzSump + 1) =
          todo.map (tripleTotal info samples) := by
        have htail := congrArg (List.drop 1) hcells
        simpa using htail
      rw [List.foldlM_cons,
        tripleStep_eq hrequest hsamples htype hij hjk hk hcell (by omega) hfirst, pure_bind, ih (fun triple h => hmem triple (by simp [h])) htail (by simp; omega) hrest]
      simp [Nat.add_comm, Nat.add_left_comm]

include htype in
theorem fourthCount_triples :
    request.fourthCount = if request.higherMoments then request.ninvars else 0 := by
  unfold Request.fourthCount Request.momentCount
  rcases htype with htype | htype <;> rw [htype]

include htype in
/-- The fourth moments are computed with the triples of one variable. -/
theorem filterMap_fourthStep? (hwinds : request.type = .prunedTrivar → 3 ≤ request.ninvars) :
    request.triples.filterMap (fourthStep? request info samples) =
      (List.range request.fourthCount).map fun i => (i, fourthOf info samples (i, i, i)) := by
  have hcount := fourthCount_triples htype
  have hcube : ∀ i, fourthStep? request info samples (i, i, i) =
      if request.higherMoments then some (i, fourthOf info samples (i, i, i)) else none := by
    intro i
    simp [fourthStep?]
  have hcubes : (List.range request.ninvars).filterMap
      (fun i => fourthStep? request info samples (i, i, i)) =
        (List.range request.fourthCount).map fun i => (i, fourthOf info samples (i, i, i)) := by
    rw [hcount]
    cases hhigher : request.higherMoments <;> simp [hcube, hhigher]
  rw [← hcubes]
  unfold Request.triples
  rcases htype with htype | htype <;> rw [htype]
  · have hoff : ∀ i j k, i < k → (fourthStep? request info samples (i, j, k)).toList = [] := by
      intro i j k hlt
      have hnot : ¬ (request.higherMoments = true ∧ i = j ∧ j = k) := by
        rintro ⟨-, rfl, rfl⟩
        exact lt_irrefl _ hlt
      unfold fourthStep?
      rw [if_neg hnot]
      rfl
    have hrow : ∀ i ∈ List.range request.ninvars,
        ((List.range' i (request.ninvars - i)).flatMap fun j =>
          (List.range' j (request.ninvars - j)).flatMap fun k =>
            (fourthStep? request info samples (i, j, k)).toList) =
          (fourthStep? request info samples (i, i, i)).toList := by
      intro i hi
      exact flatMap_range'_diagonal (List.mem_range.mp hi) _ (hoff i)
    unfold Request.allTriples
    simp only [List.filterMap_eq_flatMap_toList, List.flatMap_assoc, List.flatMap_map]
    exact List.flatMap_congr hrow
  · have hcross : request.crossTriples.filterMap (fourthStep? request info samples) = [] := by
      apply List.filterMap_eq_nil_iff.mpr
      intro triple hmem
      have hthree := hwinds htype
      unfold fourthStep?
      apply if_neg
      rintro ⟨-, hij, hjk⟩
      simp only [Request.crossTriples, List.mem_append, List.mem_map, List.mem_flatMap,
        List.mem_range'_1] at hmem
      rcases hmem with ⟨j, hj, rfl⟩ | ⟨j, hj, rfl⟩ | ⟨i, hi, j, hj, rfl⟩ | ⟨i, hi, k, hk, rfl⟩ <;>
        dsimp only at hij hjk <;> omega
    dsimp only [Request.prunedTriples]
    rw [List.filterMap_append, hcross, List.append_nil, List.filterMap_map]
    rfl

include hsamples in
theorem fourthOf_eq (i : ℕ) :
    (let xr := fourthOf info samples (i, i, i) (total (fun samp => inputOf info samp i *
      inputOf info samp i * inputOf info samp i * inputOf info samp i) samples)
    if xr < 0 then 0 else xr) = statistic info samples [i, i, i, i] := by
  have hmoment := centralMoment_fourth hsamples fun samp => inputOf info samp i
  unfold fourthOf tripleTotal
  dsimp only [statistic, List.map_cons, List.map_nil]
  rw [Int.cast_natCast, ← hmoment, if_neg (not_lt.mpr (centralMoment_fourth_nonneg _ _))]
  rfl

include hsamples htype in
theorem putFourth_eq {outData : List (Option ℚ)} {xyzSump : ℕ}
    (hle : outData.length + request.fourthCount ≤ request.outVariables.length) :
    request.putFourth (request.sumsOf info samples) ⟨xyzSump,
        (List.range request.fourthCount).map fun i => fourthOf info samples (i, i, i)
          (total (fun samp => inputOf info samp i * inputOf info samp i * inputOf info samp i *
            inputOf info samp i) samples), outData⟩ =
      pure (outData ++ (List.range request.fourthCount).map fun i =>
        some (statistic info samples [i, i, i, i])) := by
  have hcount := fourthCount_triples htype
  unfold Request.putFourth
  by_cases hhigher : request.higherMoments = true
  · rw [if_pos hhigher] at hcount ⊢
    rw [hcount] at hle ⊢
    have hbody : ∀ i outData, 0 ≤ i → i < request.ninvars →
        (do
          let xr ← access (((List.range request.ninvars).map fun i =>
            fourthOf info samples (i, i, i) (total (fun samp => inputOf info samp i *
              inputOf info samp i * inputOf info samp i * inputOf info samp i) samples))[i]?)
          putOut (request.sumsOf info samples).outlen (some (if xr < 0 then 0 else xr)) outData) =
        putOut (request.outVariables.length + 1) (some (statistic info samples [i, i, i, i]))
          outData := by
      intro i outData _ hi
      rw [List.getElem?_map, List.getElem?_range hi, Option.map_some, access_some, pure_bind,
        ← fourthOf_eq hsamples]
      rfl
    rw [forRange_eq_foldlM_map
      (fun outData value => putOut (request.outVariables.length + 1) value outData)
      (fun i => some (statistic info samples [i, i, i, i])) hbody, Nat.sub_zero,
      ← List.range_eq_range', foldlM_putOut (by simp; omega)]
  · rw [if_neg hhigher] at hcount ⊢
    rw [hcount]
    simp

include hrequest hsamples htype in
/-- All triples, with the fourth moments. -/
theorem foldlM_triples {outData : List (Option ℚ)}
    (hle : outData.length + request.triples.length ≤ request.outVariables.length) :
    request.triples.foldlM (tripleStep request info samples)
        ⟨0, (request.sumsOf info samples).x4Sum, outData⟩ =
      pure ⟨request.triples.length,
        (List.range request.fourthCount).map fun i => fourthOf info samples (i, i, i)
          (total (fun samp => inputOf info samp i * inputOf info samp i * inputOf info samp i *
            inputOf info samp i) samples),
        outData ++ request.triples.map fun triple =>
          some (statistic info samples [triple.1, triple.2.1, triple.2.2])⟩ := by
  have hthird : request.thirdCount = 0 := by
    unfold Request.thirdCount
    rcases htype with htype | htype <;> simp [htype]
  have hcells : (request.sumsOf info samples).xyzSum.drop 0 =
      request.triples.map (tripleTotal info samples) := by
    dsimp only [Request.sumsOf, Request.allThirds]
    rw [hthird, List.range_zero, List.map_nil, List.append_nil]
    rfl
  have hfourth := @filterMap_fourthStep? request info samples htype
    fun h => hrequest.winds (.inl h)
  have hx4 := foldlM_cellStep request.fourthCount (fun i => fourthOf info samples (i, i, i))
    fun i => total (fun samp => inputOf info samp i * inputOf info samp i * inputOf info samp i *
      inputOf info samp i) samples
  rw [← hfourth] at hx4
  rw [foldlM_tripleStep hrequest hsamples htype (fun _ h => h) hcells hle hx4, Nat.zero_add]

end Triples

section Triples

variable (hrequest : request.Admissible) (hsamples : samples ≠ []) {outData : List (Option ℚ)}
  (hle : outData.length + request.triples.length + request.fourthCount ≤
    request.outVariables.length)

include hrequest hsamples hle in
theorem computeTrivar_eq (htype : request.type = .trivar) :
    request.computeTrivar (request.sumsOf info samples) samples.length
        (means info samples request.ninvars) outData =
      pure (outData ++ request.triples.map (fun triple =>
          some (statistic info samples [triple.1, triple.2.1, triple.2.2])) ++
        (List.range request.fourthCount).map fun i =>
          some (statistic info samples [i, i, i, i])) := by
  have hall : request.triples = request.allTriples := by
    unfold Request.triples
    rw [htype]
  have hstep : ∀ i j, i ≤ j → ∀ k state, j ≤ k → k < request.ninvars →
      request.computeTriple (request.sumsOf info samples) samples.length
        (means info samples request.ninvars) (k = i) i j k state =
      tripleStep request info samples state (i, j, k) := by
    intro i j hij k state hjk _
    have hsame : decide (k = i) = decide (i = j ∧ j = k) := by
      rw [decide_eq_decide]
      omega
    rw [hsame]
    rfl
  have hpair : ∀ i j state, i ≤ j → j < request.ninvars →
      forRange j request.ninvars (fun k => request.computeTriple (request.sumsOf info samples)
        samples.length (means info samples request.ninvars) (k = i) i j k) state =
      ((List.range' j (request.ninvars - j)).map fun k => (i, j, k)).foldlM
        (tripleStep request info samples) state :=
    fun i j state hij _ => forRange_eq_foldlM_map _ _ (hstep i j hij) state
  have hrow : ∀ i state, 0 ≤ i → i < request.ninvars →
      forRange i request.ninvars (fun j => forRange j request.ninvars fun k =>
        request.computeTriple (request.sumsOf info samples) samples.length
          (means info samples request.ninvars) (k = i) i j k) state =
      ((List.range' i (request.ninvars - i)).flatMap fun j =>
        (List.range' j (request.ninvars - j)).map fun k => (i, j, k)).foldlM
          (tripleStep request info samples) state :=
    fun i state _ _ => forRange_eq_foldlM _ _ (hpair i) state
  have hloop : forRange 0 request.ninvars (fun i => forRange i request.ninvars fun j =>
      forRange j request.ninvars fun k => request.computeTriple (request.sumsOf info samples)
        samples.length (means info samples request.ninvars) (k = i) i j k)
      ⟨0, (request.sumsOf info samples).x4Sum, outData⟩ =
      request.triples.foldlM (tripleStep request info samples)
        ⟨0, (request.sumsOf info samples).x4Sum, outData⟩ := by
    rw [forRange_eq_foldlM _ _ hrow, hall, Nat.sub_zero, ← List.range_eq_range']
    rfl
  unfold Request.computeTrivar
  rw [hloop, foldlM_triples hrequest hsamples (.inl htype) (by omega), pure_bind,
    putFourth_eq hsamples (.inl htype) (by simpa using hle)]

include hrequest hsamples hle in
theorem computePrunedTrivar_eq (htype : request.type = .prunedTrivar) :
    request.computePrunedTrivar request.combinations (request.sumsOf info samples) samples.length
        (means info samples request.ninvars) outData =
      pure (outData ++ request.triples.map (fun triple =>
          some (statistic info samples [triple.1, triple.2.1, triple.2.2])) ++
        (List.range request.fourthCount).map fun i =>
          some (statistic info samples [i, i, i, i])) := by
  have hntri : request.combinations.ntri = request.triples.length := rfl
  unfold Request.computePrunedTrivar
  rw [hntri]
  refine (congrArg (· >>= _) (forRange_cells (tripleStep request info samples) ?_ _)).trans ?_
  · intro n state triple hcell
    have hcomb : request.combinations.triComb = request.triples := if_pos htype
    rw [hcomb, hcell, access_some, pure_bind]
    rfl
  · rw [foldlM_triples hrequest hsamples (.inr htype) (by omega), pure_bind,
      putFourth_eq hsamples (.inr htype) (by simpa using hle)]

end Triples

/-! ## All moments -/

/-- The values of the output variables. -/
def Request.values (request : Request) (info : SampleInfo) (samples : List ValueSample) :
    List (Option ℚ) :=
  request.outVariables.map fun var => some (statistic info samples var.arguments)

theorem computeHigher_eq (hrequest : request.Admissible) (hsamples : samples ≠ [])
    (hrows : request.momentRows = request.pairRows) {outData : List (Option ℚ)}
    (hle : outData.length + request.triples.length + request.thirdCount + request.fourthCount ≤
      request.outVariables.length) :
    request.computeHigher request.combinations (request.sumsOf info samples) samples.length
        (means info samples request.ninvars) outData =
      pure (outData ++ (request.triples.map (fun triple =>
          some (statistic info samples [triple.1, triple.2.1, triple.2.2])) ++
        ((List.range request.thirdCount).map (fun i => some (statistic info samples [i, i, i])) ++
          (List.range request.fourthCount).map fun i =>
            some (statistic info samples [i, i, i, i])))) := by
  have hthird : request.type = .trivar ∨ request.type = .prunedTrivar →
      request.thirdCount = 0 := by
    intro htype
    unfold Request.thirdCount
    rcases htype with htype | htype <;> simp [htype]
  unfold Request.computeHigher
  split
  case h_1 htype =>
    rw [computeTrivar_eq hrequest hsamples (by omega) htype, hthird (.inl htype)]
    simp
  case h_2 htype =>
    rw [computePrunedTrivar_eq hrequest hsamples (by omega) htype, hthird (.inr htype)]
    simp
  case h_3 htri hpruned =>
    have htype : request.type ≠ .trivar ∧ request.type ≠ .prunedTrivar := ⟨htri, hpruned⟩
    have htriples := triples_eq_nil htype
    rw [htriples, List.length_nil] at hle
    rw [computeThird_eq hrequest hsamples hrows htype, foldlM_putOut (by simp; omega), pure_bind,
      computeFourth_eq hrequest hsamples hrows htype, foldlM_putOut (by simp; omega), htriples]
    simp

theorem length_outVariables (request : Request) :
    request.outVariables.length = request.momentCount + request.pairs.length +
      request.triples.length + request.thirdCount + request.fourthCount := by
  simp [Request.outVariables, Nat.add_assoc]

/-- The values by the parts of the layout. -/
theorem values_eq (request : Request) :
    request.values info samples =
      (List.range request.momentCount).map (fun i => some (statistic info samples [i])) ++
        (request.pairs.map (fun pair => some (statistic info samples [pair.1, pair.2])) ++
          (request.triples.map (fun triple =>
              some (statistic info samples [triple.1, triple.2.1, triple.2.2])) ++
            ((List.range request.thirdCount).map (fun i =>
                some (statistic info samples [i, i, i])) ++
              (List.range request.fourthCount).map fun i =>
                some (statistic info samples [i, i, i, i])))) := by
  have hswap : ∀ pair, statistic info samples (request.pairVariable pair).arguments =
      statistic info samples [pair.1, pair.2] := by
    intro pair
    unfold Request.pairVariable
    dsimp only
    split
    · exact centralMoment_swap _ _ _
    · rfl
  unfold Request.values Request.outVariables
  simp only [List.map_append, List.map_map, Function.comp_def, hswap]
  rfl

/-- **The moments that are put out are those of the output variables.** -/
theorem computeMoments_eq (hrequest : request.Admissible) (hsamples : samples ≠ [])
    (hrows : request.momentRows = request.pairRows) :
    request.computeMoments request.combinations (request.sumsOf info samples) samples.length =
      pure (request.values info samples) := by
  have hlength := length_outVariables request
  have hsome : (samples.length : ℤ) ≠ 0 := by
    simpa using hsamples
  unfold Request.computeMoments
  rw [if_neg hsome, computeMeans_eq hrequest, pure_bind]
  dsimp only
  rw [computeSecond_eq hrequest hsamples hrows, foldlM_putOut (by simp; omega), pure_bind,
    computeHigher_eq hrequest hsamples hrows (by simp; omega), values_eq]
  simp

theorem allocated_sumsOf (hrequest : request.Admissible) :
    request.Allocated (request.sumsOf info samples) := by
  constructor
  case nSamples =>
    have hpos := hrequest.pos
    simp [Request.sumsOf]
    omega
  all_goals simp [Request.sumsOf]

/-- **The output of a period**, after which the sums are those of no samples again. -/
theorem computeStats_eq (hrequest : request.Admissible) (hsamples : samples ≠ [])
    (hcount : samples.length < 2 ^ 31) (hrows : request.momentRows = request.pairRows) :
    request.computeStats request.combinations (request.sumsOf info samples) =
      pure (request.values info samples ++ [some (samples.length : ℚ)],
        request.sumsOf info []) := by
  have hnSamp : (request.sumsOf info samples).nSamples[0]? = some samples.length := by
    dsimp only [Request.sumsOf]
    rw [Nat.mod_eq_of_lt (by omega)]
    rfl
  have hsigned : toInt32 samples.length = samples.length :=
    toInt32_of_range (by omega) (by omega)
  have hntot : decide ((request.values info samples).length = request.combinations.ntot) =
      true := by
    simp [Request.values, Request.combinations]
  have hinside : (request.values info samples).length < (request.sumsOf info samples).outlen := by
    simp [Request.values, Request.sumsOf]
  unfold Request.computeStats
  rw [hnSamp, access_some, pure_bind, hsigned]
  dsimp only
  rw [computeMoments_eq hrequest hsamples hrows, pure_bind, hntot, assert_true, pure_bind,
    putOut_of_lt hinside, pure_bind, Int.cast_natCast,
    zeroStats_eq hrequest (allocated_sumsOf hrequest), pure_bind]

end Computed

end Nidas.Dynld.CrossTerms
