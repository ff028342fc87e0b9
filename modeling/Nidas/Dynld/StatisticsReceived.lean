import Nidas.Dynld.StatisticsAdditions

/-!
# A sample is received

For each type of statistics, the loops of `receive` are the additions of the layout.  A row of the
products of a variable is as long as the row in the layout (`rowAdditions`), so that the same lemma
is about all variables of covariances and of fluxes, and about the winds of reduced fluxes.
-/

namespace Nidas.Dynld.CrossTerms

open Core Lib

/-! ## Rows -/

namespace Request

variable (request : Request) (v : ℕ → ℚ)

/-- The sums of higher moments of a variable. -/
def higherAdditions (i : ℕ) : List Addition :=
  if request.higherMoments then
    [.xyzAt i (v i * v i * v i), .x4 i (v i * v i * v i * v i)]
  else []

/-- A variable and its row of products. -/
def rowAdditions (i : ℕ) : List Addition :=
  .x i (v i) :: ((List.range' i (request.rowWidth i)).map (fun j => .xy (v i * v j)) ++
    request.higherAdditions v i)

end Request

section Rows

variable {request : Request} {v : ℕ → ℚ} {value : ℕ → Except Fault ℚ}

theorem addHigher_eq (i : ℕ) (walk : Walk) :
    request.addHigher i (v i) walk = (request.higherAdditions v i).foldlM Walk.add walk := by
  unfold Request.addHigher Request.higherAdditions
  split
  · simp
  · rfl

/-- The loop over the products of a variable. -/
theorem forRange_xy (hvalue : ∀ i, i < request.ninvars → value i = pure (v i)) (x : ℚ) (i : ℕ)
    (walk : Walk) :
    forRange i request.ninvars
        (fun j walk => do
          let y ← value j
          walk.add (.xy (x * y)))
        walk =
      ((List.range' i (request.ninvars - i)).map fun j => .xy (x * v j)).foldlM Walk.add walk := by
  apply forRange_eq_foldlM_map Walk.add fun j => .xy (x * v j)
  intro j walk _ hlt
  rw [hvalue j hlt, pure_bind]

theorem addRow_eq (hvalue : ∀ i, i < request.ninvars → value i = pure (v i)) {i : ℕ}
    (hlt : i < request.ninvars) (hwidth : request.rowWidth i = request.ninvars - i) (walk : Walk) :
    request.addRow request.ninvars value i walk =
      (request.rowAdditions v i).foldlM Walk.add walk := by
  unfold Request.addRow Request.rowAdditions
  rw [hvalue i hlt, pure_bind, List.foldlM_cons, hwidth]
  congr 1
  funext walk
  rw [forRange_xy hvalue, List.foldlM_append]
  congr 1
  funext walk
  exact addHigher_eq i walk

theorem filterMap_map_none {ι β : Type} {step : Addition → Option β} {f : ι → Addition}
    (hnone : ∀ i, step (f i) = none) (indices : List ι) :
    (indices.map f).filterMap step = [] := by
  apply List.filterMap_eq_nil_iff.mpr
  intro addition hmem
  obtain ⟨i, -, rfl⟩ := List.mem_map.mp hmem
  exact hnone i

theorem filterMap_map_some {ι β : Type} (step : Addition → Option β) (f : ι → Addition)
    (g : ι → β) (hsome : ∀ i, step (f i) = some (g i)) (indices : List ι) :
    (indices.map f).filterMap step = indices.map g := by
  induction indices with
  | nil => rfl
  | cons i indices ih => rw [List.map_cons, List.filterMap_cons_some (hsome i), ih, List.map_cons]

theorem filterMap_xStep?_row (i : ℕ) :
    (request.rowAdditions v i).filterMap Addition.xStep? = [(i, (· + v i))] := by
  unfold Request.rowAdditions Request.higherAdditions
  simp only [List.filterMap_cons, Addition.xStep?]
  rw [List.filterMap_append, filterMap_map_none fun _ => rfl]
  split <;> rfl

theorem filterMap_xyStep?_row (i : ℕ) :
    (request.rowAdditions v i).filterMap Addition.xyStep? =
      (List.range' i (request.rowWidth i)).map fun j => (· + v i * v j) := by
  unfold Request.rowAdditions Request.higherAdditions
  simp only [List.filterMap_cons, Addition.xyStep?]
  rw [List.filterMap_append, filterMap_map_some Addition.xyStep? _
    (fun j => (· + v i * v j)) fun _ => rfl]
  split <;> exact List.append_nil _

theorem filterMap_xyzStep?_row (i : ℕ) :
    (request.rowAdditions v i).filterMap Addition.xyzStep? =
      if request.higherMoments then [(some i, (· + v i * v i * v i))] else [] := by
  unfold Request.rowAdditions Request.higherAdditions
  simp only [List.filterMap_cons, Addition.xyzStep?]
  rw [List.filterMap_append, filterMap_map_none fun _ => rfl]
  split <;> rfl

theorem filterMap_x4Step?_row (i : ℕ) :
    (request.rowAdditions v i).filterMap Addition.x4Step? =
      if request.higherMoments then [(i, (· + v i * v i * v i * v i))] else [] := by
  unfold Request.rowAdditions Request.higherAdditions
  simp only [List.filterMap_cons, Addition.x4Step?]
  rw [List.filterMap_append, filterMap_map_none fun _ => rfl]
  split <;> rfl

/-- What is done for each index, with an option. -/
theorem flatMap_ite {α : Type} (condition : Bool) (n : ℕ) (f : ℕ → α) :
    (List.range n).flatMap (fun i => if condition then [f i] else []) =
      (List.range (if condition then n else 0)).map f := by
  cases condition with
  | true => simp [← List.map_eq_flatMap]
  | false => simp

/-- The types where all variables have rows. -/
theorem adds_rows (hrows : request.pairRows = request.ninvars)
    (hmoments : request.momentCount = request.ninvars) (htri : request.type ≠ .trivar)
    (hpruned : request.type ≠ .prunedTrivar) :
    Adds request v ((List.range request.ninvars).flatMap (request.rowAdditions v)) := by
  have htriples : request.triples = [] := by
    unfold Request.triples
    split <;> first | contradiction | rfl
  have hthird : request.thirdCount = if request.higherMoments then request.ninvars else 0 := by
    unfold Request.thirdCount
    simp [htri, hpruned, hmoments]
  have hfourth : request.fourthCount = if request.higherMoments then request.ninvars else 0 := by
    unfold Request.fourthCount
    rw [hmoments]
  constructor
  case x => simp only [List.filterMap_flatMap, filterMap_xStep?_row, ← List.map_eq_flatMap]
  case xy =>
    simp only [List.filterMap_flatMap, filterMap_xyStep?_row]
    rw [Request.pairs, map_flatRows, hrows]
    rfl
  case xyz =>
    simp only [List.filterMap_flatMap, filterMap_xyzStep?_row]
    rw [flatMap_ite, htriples, hthird]
    rfl
  case x4 =>
    simp only [List.filterMap_flatMap, filterMap_x4Step?_row]
    rw [flatMap_ite, hfourth]

end Rows

/-! ## The types -/

/-- The additions of the loops for a type of statistics. -/
def Added (request : Request) (v : ℕ → ℚ) (loops : Walk → Except Fault Walk) : Prop :=
  ∃ additions, Adds request v additions ∧ ∀ walk, loops walk = additions.foldlM Walk.add walk

section Types

variable {request : Request} {v : ℕ → ℚ} {value : ℕ → Except Fault ℚ}

/-- Rows of some variables. -/
theorem forRange_addRow (hvalue : ∀ i, i < request.ninvars → value i = pure (v i)) {n : ℕ}
    (hle : n ≤ request.ninvars)
    (hwidth : ∀ i, i < n → request.rowWidth i = request.ninvars - i) (walk : Walk) :
    forRange 0 n (request.addRow request.ninvars value) walk =
      ((List.range n).flatMap (request.rowAdditions v)).foldlM Walk.add walk := by
  have hrow : ∀ i walk, 0 ≤ i → i < n → request.addRow request.ninvars value i walk =
      (request.rowAdditions v i).foldlM Walk.add walk :=
    fun i walk _ hlt => addRow_eq hvalue (hlt.trans_le hle) (hwidth i hlt) walk
  rw [forRange_eq_foldlM _ _ hrow, Nat.sub_zero, ← List.range_eq_range']

theorem added_cov (htype : request.type = .cov)
    (hvalue : ∀ i, i < request.ninvars → value i = pure (v i)) :
    Added request v (request.addCov request.ninvars value) := by
  refine ⟨_, adds_rows ?_ ?_ (by simp [htype]) (by simp [htype]), fun walk => ?_⟩
  · unfold Request.pairRows
    rw [htype]
  · unfold Request.momentCount
    rw [htype]
  · exact forRange_addRow hvalue le_rfl (fun i _ => if_neg (by simp [htype])) walk

/-- The winds, which are in front of the other variables. -/
theorem flatMap_range_three {α : Type} {n : ℕ} (hthree : 3 ≤ n) (f : ℕ → List α) :
    (List.range n).flatMap f = (List.range 3).flatMap f ++ (List.range' 3 (n - 3)).flatMap f := by
  rw [← List.flatMap_append, List.range_eq_range', List.range_eq_range']
  congr 1
  rw [List.range'_append_1, Nat.add_sub_cancel' hthree]

theorem added_flux (htype : request.type = .flux) (hthree : 3 ≤ request.ninvars)
    (hvalue : ∀ i, i < request.ninvars → value i = pure (v i)) :
    Added request v (request.addFlux request.ninvars value) := by
  refine ⟨_, adds_rows ?_ ?_ (by simp [htype]) (by simp [htype]), fun walk => ?_⟩
  · unfold Request.pairRows
    rw [htype]
  · unfold Request.momentCount
    rw [htype]
  · have hscalar : ∀ i walk, 3 ≤ i → i < request.ninvars →
        (do
          let x ← value i
          let walk ← Walk.add walk (.x i x)
          let walk ← walk.add (.xy (x * x))
          request.addHigher i x walk) = (request.rowAdditions v i).foldlM Walk.add walk := by
      intro i walk hge hlt
      have hwidth : request.rowWidth i = 1 := if_pos ⟨.inl htype, hge⟩
      unfold Request.rowAdditions
      rw [hvalue i hlt, pure_bind, hwidth, List.range'_one, List.map_singleton,
        List.singleton_append, List.foldlM_cons]
      congr 1
      funext walk
      rw [List.foldlM_cons]
      congr 1
      funext walk
      exact addHigher_eq i walk
    unfold Request.addFlux
    rw [flatMap_range_three hthree, List.foldlM_append,
      forRange_addRow hvalue hthree fun i hi => rowWidth_of_le (by omega)]
    congr 1
    funext walk
    exact forRange_eq_foldlM _ _ hscalar walk

theorem added_rflux (htype : request.type = .rflux) (hthree : 3 ≤ request.ninvars)
    (hvalue : ∀ i, i < request.ninvars → value i = pure (v i)) :
    Added request v (request.addReducedFlux request.ninvars value) := by
  have hmoments : request.momentCount = 3 := by
    unfold Request.momentCount
    rw [htype]
  have htriples : request.triples = [] := by
    unfold Request.triples
    rw [htype]
  have hthird : request.thirdCount = if request.higherMoments then 3 else 0 := by
    unfold Request.thirdCount
    simp [htype, hmoments]
  have hfourth : request.fourthCount = if request.higherMoments then 3 else 0 := by
    unfold Request.fourthCount
    rw [hmoments]
  refine ⟨(List.range 3).flatMap (request.rowAdditions v) ++
    (List.range' 3 (request.ninvars - 3)).map fun i => .x i (v i), ?_, fun walk => ?_⟩
  · constructor
    case x =>
      rw [List.filterMap_append, filterMap_map_some Addition.xStep? _ (fun i => (i, (· + v i)))
        fun _ => rfl]
      simp only [List.filterMap_flatMap, filterMap_xStep?_row, ← List.map_eq_flatMap]
      rw [← List.map_append, List.range_eq_range', List.range_eq_range', List.range'_append_1,
        Nat.add_sub_cancel' hthree]
    case xy =>
      rw [List.filterMap_append, filterMap_map_none fun _ => rfl, List.append_nil]
      simp only [List.filterMap_flatMap, filterMap_xyStep?_row]
      rw [Request.pairs, map_flatRows, Request.pairRows, htype]
      rfl
    case xyz =>
      rw [List.filterMap_append, filterMap_map_none fun _ => rfl, List.append_nil]
      simp only [List.filterMap_flatMap, filterMap_xyzStep?_row]
      rw [flatMap_ite, htriples, hthird]
      rfl
    case x4 =>
      rw [List.filterMap_append, filterMap_map_none fun _ => rfl, List.append_nil]
      simp only [List.filterMap_flatMap, filterMap_x4Step?_row]
      rw [flatMap_ite, hfourth]
  · unfold Request.addReducedFlux
    rw [List.foldlM_append, forRange_addRow hvalue hthree fun i hi => rowWidth_of_le (by omega)]
    congr 1
    funext walk
    apply forRange_eq_foldlM_map Walk.add fun i => .x i (v i)
    intro i walk _ hlt
    rw [hvalue i hlt, pure_bind]

theorem added_sflux (htype : request.type = .sflux) (hpos : 0 < request.ninvars)
    (hvalue : ∀ i, i < request.ninvars → value i = pure (v i)) :
    Added request v (request.addScalarFlux request.ninvars value) := by
  have hmoments : request.momentCount = 1 := by
    unfold Request.momentCount
    rw [htype]
  have htriples : request.triples = [] := by
    unfold Request.triples
    rw [htype]
  have hpairs : request.pairs = (List.range request.ninvars).map (Prod.mk 0) := by
    unfold Request.pairs Request.pairRows
    rw [htype]
    simp [flatRows, rowWidth_of_le, List.range_eq_range']
  have hthird : request.thirdCount = if request.higherMoments then 1 else 0 := by
    unfold Request.thirdCount
    simp [htype, hmoments]
  have hfourth : request.fourthCount = if request.higherMoments then 1 else 0 := by
    unfold Request.fourthCount
    rw [hmoments]
  refine ⟨(List.range request.ninvars).flatMap (fun j => [.x j (v j), .xy (v 0 * v j)]) ++
    request.higherAdditions v 0, ?_, fun walk => ?_⟩
  · constructor
    case x =>
      rw [List.filterMap_append, List.filterMap_flatMap]
      have hhigher : (request.higherAdditions v 0).filterMap Addition.xStep? = [] := by
        unfold Request.higherAdditions
        split <;> rfl
      rw [hhigher, List.append_nil]
      exact List.map_eq_flatMap.symm
    case xy =>
      rw [List.filterMap_append, List.filterMap_flatMap]
      have hhigher : (request.higherAdditions v 0).filterMap Addition.xyStep? = [] := by
        unfold Request.higherAdditions
        split <;> rfl
      rw [hhigher, List.append_nil, hpairs, List.map_map]
      exact List.map_eq_flatMap.symm
    case xyz =>
      rw [List.filterMap_append, List.filterMap_flatMap, htriples, hthird]
      have hnone : (List.range request.ninvars).flatMap (fun j =>
          [Addition.x j (v j), .xy (v 0 * v j)].filterMap Addition.xyzStep?) = [] :=
        List.flatMap_eq_nil_iff.mpr fun _ _ => rfl
      rw [hnone]
      unfold Request.higherAdditions
      split <;> rfl
    case x4 =>
      rw [List.filterMap_append, List.filterMap_flatMap, hfourth]
      have hnone : (List.range request.ninvars).flatMap (fun j =>
          [Addition.x j (v j), .xy (v 0 * v j)].filterMap Addition.x4Step?) = [] :=
        List.flatMap_eq_nil_iff.mpr fun _ _ => rfl
      rw [hnone]
      unfold Request.higherAdditions
      split <;> rfl
  · have hscalar : ∀ j walk, 0 ≤ j → j < request.ninvars →
        (do
          let y ← value j
          let walk ← Walk.add walk (.x j y)
          walk.add (.xy (v 0 * y))) =
            [Addition.x j (v j), .xy (v 0 * v j)].foldlM Walk.add walk := by
      intro j walk _ hlt
      rw [hvalue j hlt, pure_bind]
      simp
    unfold Request.addScalarFlux
    rw [hvalue 0 hpos, pure_bind, List.foldlM_append, forRange_eq_foldlM _ _ hscalar, Nat.sub_zero,
      ← List.range_eq_range']
    congr 1
    funext walk
    exact addHigher_eq 0 walk

/-- The products of three variables, with the sum of the fourth moment among them. -/
def tripleAdditions (request : Request) (v : ℕ → ℚ) (i j k : ℕ) : List Addition :=
  .xyz (v i * v j * v k) ::
    if request.higherMoments ∧ k = i then [.x4 i (v i * v j * v i * v i)] else []

/-- The products of two variables, each with those of three ones. -/
def pairAdditions (request : Request) (v : ℕ → ℚ) (i j : ℕ) : List Addition :=
  .xy (v i * v j) ::
    (List.range' j (request.ninvars - j)).flatMap (tripleAdditions request v i j)

theorem flatMap_nil_right {ι β : Type} (indices : List ι) :
    indices.flatMap (fun _ => ([] : List β)) = [] :=
  List.flatMap_eq_nil_iff.mpr fun _ _ => rfl

theorem filterMap_xStep?_triple (i j k : ℕ) :
    (tripleAdditions request v i j k).filterMap Addition.xStep? = [] := by
  unfold tripleAdditions
  split <;> rfl

theorem filterMap_xyStep?_triple (i j k : ℕ) :
    (tripleAdditions request v i j k).filterMap Addition.xyStep? = [] := by
  unfold tripleAdditions
  split <;> rfl

theorem filterMap_xyzStep?_triple (i j k : ℕ) :
    (tripleAdditions request v i j k).filterMap Addition.xyzStep? =
      [(none, (· + v i * v j * v k))] := by
  unfold tripleAdditions
  split <;> rfl

theorem filterMap_x4Step?_triple (i j k : ℕ) :
    (tripleAdditions request v i j k).filterMap Addition.x4Step? =
      if request.higherMoments ∧ k = i then [(i, (· + v i * v j * v i * v i))] else [] := by
  unfold tripleAdditions
  split <;> rfl

/-- The fourth moment of a variable is in the first of its products with others. -/
theorem filterMap_x4Step?_triples {i n : ℕ} (hlt : i < n) :
    ((List.range' i (n - i)).flatMap fun j => (List.range' j (n - j)).flatMap fun k =>
      (tripleAdditions request v i j k).filterMap Addition.x4Step?) =
      if request.higherMoments then [(i, (· + v i * v i * v i * v i))] else [] := by
  have hoff : ∀ j k, i < k →
      (tripleAdditions request v i j k).filterMap Addition.x4Step? = [] := by
    intro j k hlt
    rw [filterMap_x4Step?_triple, if_neg fun h => hlt.ne' h.2]
  rw [flatMap_range'_diagonal hlt _ hoff, filterMap_x4Step?_triple]
  simp

theorem added_trivar (htype : request.type = .trivar)
    (hvalue : ∀ i, i < request.ninvars → value i = pure (v i)) :
    Added request v (request.addTrivar request.ninvars value) := by
  have hmoments : request.momentCount = request.ninvars := by
    unfold Request.momentCount
    rw [htype]
  have hthird : request.thirdCount = 0 := by
    unfold Request.thirdCount
    simp [htype]
  have hfourth : request.fourthCount = if request.higherMoments then request.ninvars else 0 := by
    unfold Request.fourthCount
    rw [hmoments]
  have hpairs : request.pairs =
      flatRows (fun i => request.ninvars - i) Prod.mk request.ninvars := by
    unfold Request.pairs Request.pairRows
    rw [htype]
    exact flatRows_congr fun i _ => if_neg (by simp [htype])
  have htriples : request.triples = request.allTriples := by
    unfold Request.triples
    rw [htype]
  refine ⟨(List.range request.ninvars).flatMap fun i => .x i (v i) ::
    (List.range' i (request.ninvars - i)).flatMap (pairAdditions request v i), ?_,
    fun walk => ?_⟩
  · constructor
    case x =>
      simp only [List.filterMap_flatMap, List.filterMap_cons, Addition.xStep?, pairAdditions,
        filterMap_xStep?_triple, flatMap_nil_right]
      exact List.map_eq_flatMap.symm
    case xy =>
      simp only [List.filterMap_flatMap, List.filterMap_cons, Addition.xyStep?, pairAdditions,
        filterMap_xyStep?_triple, flatMap_nil_right]
      rw [hpairs, map_flatRows]
      simp only [← List.map_eq_flatMap]
      rfl
    case xyz =>
      simp only [List.filterMap_flatMap, List.filterMap_cons, Addition.xyzStep?, pairAdditions,
        filterMap_xyzStep?_triple]
      rw [htriples, hthird, Request.allTriples]
      simp [List.map_flatMap, ← List.map_eq_flatMap, Function.comp_def]
    case x4 =>
      simp only [List.filterMap_flatMap, List.filterMap_cons, Addition.x4Step?, pairAdditions]
      rw [List.flatMap_congr fun i hi => filterMap_x4Step?_triples (List.mem_range.mp hi),
        flatMap_ite, hfourth]
  · have htriple : ∀ i j, i < request.ninvars → j < request.ninvars → ∀ k walk, j ≤ k →
        k < request.ninvars →
        (do
          let z ← value k
          let walk ← Walk.add walk (.xyz (v i * v j * z))
          if request.higherMoments ∧ k = i then walk.add (.x4 i (v i * v j * v i * v i))
          else pure walk) = (tripleAdditions request v i j k).foldlM Walk.add walk := by
      intro i j _ _ k walk _ hk
      unfold tripleAdditions
      rw [hvalue k hk, pure_bind, List.foldlM_cons]
      congr 1
      funext walk
      split
      · simp
      · rfl
    have hpair : ∀ i, i < request.ninvars → ∀ j walk, i ≤ j → j < request.ninvars →
        (do
          let y ← value j
          let walk ← Walk.add walk (.xy (v i * y))
          forRange j request.ninvars
            (fun k walk => do
              let z ← value k
              let walk ← walk.add (.xyz (v i * y * z))
              if request.higherMoments ∧ k = i then walk.add (.x4 i (v i * y * v i * v i))
              else pure walk)
            walk) = (pairAdditions request v i j).foldlM Walk.add walk := by
      intro i hi j walk _ hj
      unfold pairAdditions
      rw [hvalue j hj, pure_bind, List.foldlM_cons]
      congr 1
      funext walk
      exact forRange_eq_foldlM _ _ (htriple i j hi hj) walk
    have hrow : ∀ i walk, 0 ≤ i → i < request.ninvars →
        (do
          let x ← value i
          let walk ← Walk.add walk (.x i x)
          forRange i request.ninvars
            (fun j walk => do
              let y ← value j
              let walk ← walk.add (.xy (x * y))
              forRange j request.ninvars
                (fun k walk => do
                  let z ← value k
                  let walk ← walk.add (.xyz (x * y * z))
                  if request.higherMoments ∧ k = i then walk.add (.x4 i (x * y * x * x))
                  else pure walk)
                walk)
            walk) =
          (.x i (v i) :: (List.range' i (request.ninvars - i)).flatMap
            (pairAdditions request v i)).foldlM Walk.add walk := by
      intro i walk _ hi
      rw [hvalue i hi, pure_bind, List.foldlM_cons]
      congr 1
      funext walk
      exact forRange_eq_foldlM _ _ (hpair i hi) walk
    unfold Request.addTrivar
    rw [forRange_eq_foldlM _ _ hrow, Nat.sub_zero, ← List.range_eq_range']

/-- A variable and its row of products, with the sum of the fourth moment. -/
def prunedRowAdditions (request : Request) (v : ℕ → ℚ) (i : ℕ) : List Addition :=
  .x i (v i) :: ((List.range' i (request.ninvars - i)).map (fun j => .xy (v i * v j)) ++
    if request.higherMoments then [.x4 i (v i * v i * v i * v i)] else [])

theorem added_prunedTrivar (htype : request.type = .prunedTrivar)
    (hwinds : 3 ≤ request.ninvars) (hvalue : ∀ i, i < request.ninvars → value i = pure (v i)) :
    Added request v (request.addPrunedTrivar request.ninvars value request.combinations) := by
  have hmoments : request.momentCount = request.ninvars := by
    unfold Request.momentCount
    rw [htype]
  have hthird : request.thirdCount = 0 := by
    unfold Request.thirdCount
    simp [htype]
  have hfourth : request.fourthCount = if request.higherMoments then request.ninvars else 0 := by
    unfold Request.fourthCount
    rw [hmoments]
  have hpairs : request.pairs =
      flatRows (fun i => request.ninvars - i) Prod.mk request.ninvars := by
    unfold Request.pairs Request.pairRows
    rw [htype]
    exact flatRows_congr fun i _ => if_neg (by simp [htype])
  refine ⟨(List.range request.ninvars).flatMap (prunedRowAdditions request v) ++
    request.triples.map fun triple => .xyz (v triple.1 * v triple.2.1 * v triple.2.2), ?_,
    fun walk => ?_⟩
  · constructor
    case x =>
      rw [List.filterMap_append, filterMap_map_none fun _ => rfl, List.append_nil]
      have hrow : ∀ i, (prunedRowAdditions request v i).filterMap Addition.xStep? =
          [(i, (· + v i))] := by
        intro i
        unfold prunedRowAdditions
        simp only [List.filterMap_cons, Addition.xStep?]
        rw [List.filterMap_append, filterMap_map_none fun _ => rfl]
        split <;> rfl
      simp only [List.filterMap_flatMap, hrow, ← List.map_eq_flatMap]
    case xy =>
      rw [List.filterMap_append, filterMap_map_none fun _ => rfl, List.append_nil]
      have hrow : ∀ i, (prunedRowAdditions request v i).filterMap Addition.xyStep? =
          (List.range' i (request.ninvars - i)).map fun j => (· + v i * v j) := by
        intro i
        unfold prunedRowAdditions
        simp only [List.filterMap_cons, Addition.xyStep?]
        rw [List.filterMap_append, filterMap_map_some Addition.xyStep? _
          (fun j => (· + v i * v j)) fun _ => rfl]
        split <;> exact List.append_nil _
      simp only [List.filterMap_flatMap, hrow]
      rw [hpairs, map_flatRows]
      rfl
    case xyz =>
      have hrow : ∀ i, (prunedRowAdditions request v i).filterMap Addition.xyzStep? = [] := by
        intro i
        unfold prunedRowAdditions
        simp only [List.filterMap_cons, Addition.xyzStep?]
        rw [List.filterMap_append, filterMap_map_none fun _ => rfl]
        split <;> rfl
      rw [List.filterMap_append, List.filterMap_flatMap]
      simp only [hrow]
      rw [flatMap_nil_right, List.nil_append, hthird, List.range_zero, List.map_nil,
        List.append_nil]
      exact filterMap_map_some _ _ (fun triple : ℕ × ℕ × ℕ =>
        (none, (· + v triple.1 * v triple.2.1 * v triple.2.2))) (fun _ => rfl) _
    case x4 =>
      rw [List.filterMap_append, filterMap_map_none fun _ => rfl, List.append_nil]
      have hrow : ∀ i, (prunedRowAdditions request v i).filterMap Addition.x4Step? =
          if request.higherMoments then [(i, (· + v i * v i * v i * v i))] else [] := by
        intro i
        unfold prunedRowAdditions
        simp only [List.filterMap_cons, Addition.x4Step?]
        rw [List.filterMap_append, filterMap_map_none fun _ => rfl]
        split <;> rfl
      simp only [List.filterMap_flatMap, hrow]
      rw [flatMap_ite, hfourth]
  · have hrow : ∀ i walk, 0 ≤ i → i < request.ninvars →
        (do
          let x ← value i
          let walk ← Walk.add walk (.x i x)
          let walk ← forRange i request.ninvars
            (fun j walk => do
              let y ← value j
              walk.add (.xy (x * y)))
            walk
          if request.higherMoments then walk.add (.x4 i (x * x * x * x)) else pure walk) =
        (prunedRowAdditions request v i).foldlM Walk.add walk := by
      intro i walk _ hi
      unfold prunedRowAdditions
      rw [hvalue i hi, pure_bind, List.foldlM_cons]
      congr 1
      funext walk
      rw [forRange_xy hvalue, List.foldlM_append]
      congr 1
      funext walk
      split
      · simp
      · rfl
    unfold Request.addPrunedTrivar
    rw [forRange_eq_foldlM _ _ hrow, Nat.sub_zero, ← List.range_eq_range', List.foldlM_append]
    congr 1
    funext walk
    have hntri : request.combinations.ntri = request.triples.length := rfl
    rw [hntri]
    refine (forRange_cells (fun walk (triple : ℕ × ℕ × ℕ) =>
      Walk.add walk (.xyz (v triple.1 * v triple.2.1 * v triple.2.2))) ?_ walk).trans ?_
    · intro n walk triple hcell
      have hcomb : request.combinations.triComb = request.triples := if_pos htype
      obtain ⟨hij, hjk, hk⟩ :=
        increasing_of_mem_triples (fun _ => hwinds) (List.mem_of_getElem? hcell)
      rw [hcomb, hcell, access_some, pure_bind]
      dsimp only
      rw [hvalue triple.1 (by omega), pure_bind, hvalue triple.2.1 (by omega), pure_bind,
        hvalue triple.2.2 hk, pure_bind]
    · rw [List.foldlM_map]

theorem added_addProducts (hrequest : request.Admissible)
    (hvalue : ∀ i, i < request.ninvars → value i = pure (v i)) :
    Added request v (request.addProducts request.ninvars value request.combinations) := by
  unfold Request.addProducts
  cases htype : request.type with
  | cov => exact added_cov htype hvalue
  | flux => exact added_flux htype (hrequest.winds (by simp [htype])) hvalue
  | rflux => exact added_rflux htype (hrequest.winds (by simp [htype])) hvalue
  | sflux => exact added_sflux htype hrequest.pos hvalue
  | trivar => exact added_trivar htype hvalue
  | prunedTrivar => exact added_prunedTrivar htype (hrequest.winds (by simp [htype])) hvalue

end Types

/-! ## A sample -/

/-- All input variables have a number in the sample, and it is counted as complete. -/
structure Complete (request : Request) (info : SampleInfo) (samp : ValueSample) : Prop where
  inputs : info.varIndices.length = request.ninvars
  numbers : ∀ index ∈ info.varIndices, (samp.value? index.1).isSome
  counted : request.ninvars ≤ nonNANs info samp

section Receive

variable {request : Request} {info : SampleInfo} {samp : ValueSample}

theorem Complete.inputValue_eq (h : Complete request info samp) {i : ℕ}
    (hlt : i < request.ninvars) : inputValue info samp i = pure (inputOf info samp i) := by
  have hindex : i < info.varIndices.length := h.inputs ▸ hlt
  obtain ⟨value, hvalue⟩ := Option.isSome_iff_exists.mp
    (h.numbers info.varIndices[i] (List.getElem_mem hindex))
  have hinside : info.varIndices[i].1 < samp.data.length := by
    by_contra hout
    have hnone : samp.data[info.varIndices[i].1]? = none :=
      List.getElem?_eq_none (Nat.le_of_not_lt hout)
    simp [ValueSample.value?, hnone] at hvalue
  have hinput : inputOf info samp i = value := by
    unfold inputOf
    rw [List.getElem?_eq_getElem hindex, Option.bind_some, hvalue, Option.getD_some]
  unfold inputValue
  rw [List.getElem?_eq_getElem hindex, access_some, pure_bind, decide_eq_true hinside, assert_true,
    pure_bind, hvalue, hinput]
  rfl

/-- **A complete sample is added to the sums.** -/
theorem receive_eq (hrequest : request.Admissible) (h : Complete request info samp)
    (samples : List ValueSample) :
    request.receive request.combinations info (request.sumsOf info samples) samp =
      pure (request.sumsOf info (samples ++ [samp])) := by
  obtain ⟨additions, hadds, hloops⟩ :=
    added_addProducts hrequest fun i hlt => h.inputValue_eq hlt
  obtain ⟨p, q, hfold⟩ := hadds.foldlM_add samples
  have hrow : (request.sumsOf info samples).rows[0]? = some 0 := by
    simp [Request.sumsOf, hrequest.rowCount_pos, rowStart]
  unfold Request.receive
  rw [if_neg (Nat.not_lt.mpr h.counted), hrow, access_some, pure_bind, h.inputs, hloops]
  have hzero : (0 : ℤ) = (0 : ℕ) := rfl
  rw [hzero, hfold, pure_bind]
  simp [Request.sumsOf, modifyAt?, Nat.mod_add_mod]

/-- All samples of a period. -/
theorem foldlM_receive (hrequest : request.Admissible) {samples : List ValueSample}
    (h : ∀ samp ∈ samples, Complete request info samp) :
    samples.foldlM (request.receive request.combinations info) (request.sumsOf info []) =
      pure (request.sumsOf info samples) := by
  induction samples using List.reverseRecOn with
  | nil => rfl
  | append_singleton samples samp ih =>
      have hbefore : ∀ samp ∈ samples, Complete request info samp :=
        fun samp hmem => h samp (List.mem_append_left _ hmem)
      have hlast : Complete request info samp := h samp (by simp)
      rw [List.foldlM_append, ih hbefore, pure_bind, List.foldlM_cons,
        receive_eq hrequest hlast, pure_bind]
      rfl

end Receive

end Nidas.Dynld.CrossTerms
