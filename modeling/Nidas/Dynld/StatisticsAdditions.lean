import Nidas.Dynld.StatisticsAccumulated

/-!
# The additions of a sample

The loops of `receive` are lists of additions.  They are taken apart by the arrays that they are
made to, which do not depend on each other (`foldlM_add`); each of these arrays is gone through from
its first cell to its last, and the products are those of the layout (`Adds`).  So a complete sample
is added to the sums of the layout (`receive_eq`).
-/

namespace Nidas.Dynld.CrossTerms

open Core Lib

/-! ## Additions by array -/

namespace Addition

/-- A step on `_xSum`. -/
def xStep? : Addition → Option (ℕ × (ℚ → ℚ))
  | .x i value => some (i, (· + value))
  | _ => none

/-- A step on the array of `_xySum`, by the pointer. -/
def xyStep? : Addition → Option (ℚ → ℚ)
  | .xy value => some (· + value)
  | _ => none

/-- A step on `_xyzSum`, at a cell or by the pointer. -/
def xyzStep? : Addition → Option (Option ℕ × (ℚ → ℚ))
  | .xyz value => some (none, (· + value))
  | .xyzAt i value => some (some i, (· + value))
  | _ => none

/-- A step on `_x4Sum`. -/
def x4Step? : Addition → Option (ℕ × (ℚ → ℚ))
  | .x4 i value => some (i, (· + value))
  | _ => none

end Addition

/-- Modify a cell. -/
def cellStep (cells : List ℚ) (step : ℕ × (ℚ → ℚ)) : Option (List ℚ) :=
  modifyAt? cells step.1 step.2

/-- Modify the cell that the pointer points to, and move it on. -/
def walkStep (state : List ℚ × ℕ) (step : ℚ → ℚ) : Option (List ℚ × ℕ) :=
  (modifyAt? state.1 state.2 step).map fun cells => (cells, state.2 + 1)

def mixedStep (state : List ℚ × ℕ) (step : Option ℕ × (ℚ → ℚ)) : Option (List ℚ × ℕ) :=
  match step.1 with
  | none => walkStep state step.2
  | some i => (modifyAt? state.1 i step.2).map fun cells => (cells, state.2)

/-- **The arrays do not depend on each other.** -/
theorem foldlM_add {additions : List Addition} {sums : Sums} {p q p' q' : ℕ}
    {xSum xySum xyzSum x4Sum : List ℚ}
    (hx : (additions.filterMap Addition.xStep?).foldlM cellStep sums.xSum = some xSum)
    (hxy : (additions.filterMap Addition.xyStep?).foldlM walkStep (sums.xySum, p) =
      some (xySum, p'))
    (hxyz : (additions.filterMap Addition.xyzStep?).foldlM mixedStep (sums.xyzSum, q) =
      some (xyzSum, q'))
    (hx4 : (additions.filterMap Addition.x4Step?).foldlM cellStep sums.x4Sum = some x4Sum) :
    additions.foldlM Walk.add ⟨sums, p, q⟩ =
      pure ⟨{ sums with xSum := xSum, xySum := xySum, xyzSum := xyzSum, x4Sum := x4Sum },
        p', q'⟩ := by
  induction additions generalizing sums p q with
  | nil =>
      cases hx
      cases hxy
      cases hxyz
      cases hx4
      rfl
  | cons addition additions ih =>
      rw [List.foldlM_cons]
      cases addition with
      | x i value =>
          simp only [List.filterMap_cons, Addition.xStep?, Addition.xyStep?, Addition.xyzStep?,
            Addition.x4Step?, List.foldlM_cons, Option.bind_eq_bind] at hx hxy hxyz hx4
          obtain ⟨cells, hcells, hrest⟩ := Option.bind_eq_some_iff.mp hx
          have hadd : Walk.add ⟨sums, p, q⟩ (.x i value) =
              pure ⟨{ sums with xSum := cells }, p, q⟩ := by
            unfold cellStep at hcells
            simp [Walk.add, hcells]
          rw [hadd, pure_bind]
          exact ih hrest hxy hxyz hx4
      | xy value =>
          simp only [List.filterMap_cons, Addition.xStep?, Addition.xyStep?, Addition.xyzStep?,
            Addition.x4Step?, List.foldlM_cons, Option.bind_eq_bind] at hx hxy hxyz hx4
          obtain ⟨state, hstate, hrest⟩ := Option.bind_eq_some_iff.mp hxy
          obtain ⟨cells, hcells, rfl⟩ := Option.map_eq_some_iff.mp hstate
          have hadd : Walk.add ⟨sums, p, q⟩ (.xy value) =
              pure ⟨{ sums with xySum := cells }, (p + 1 : ℕ), q⟩ := by
            have hposition : position (p : ℤ) = some p := by
              simp [position]
            simp only [Walk.add, hposition, access_some, pure_bind, hcells, Nat.cast_add,
              Nat.cast_one]
          rw [hadd, pure_bind]
          exact ih hx hrest hxyz hx4
      | xyz value =>
          simp only [List.filterMap_cons, Addition.xStep?, Addition.xyStep?, Addition.xyzStep?,
            Addition.x4Step?, List.foldlM_cons, Option.bind_eq_bind] at hx hxy hxyz hx4
          obtain ⟨state, hstate, hrest⟩ := Option.bind_eq_some_iff.mp hxyz
          obtain ⟨cells, hcells, rfl⟩ := Option.map_eq_some_iff.mp hstate
          have hadd : Walk.add ⟨sums, p, q⟩ (.xyz value) =
              pure ⟨{ sums with xyzSum := cells }, p, q + 1⟩ := by
            simp only [Walk.add, hcells, access_some, pure_bind]
          rw [hadd, pure_bind]
          exact ih hx hxy hrest hx4
      | xyzAt i value =>
          simp only [List.filterMap_cons, Addition.xStep?, Addition.xyStep?, Addition.xyzStep?,
            Addition.x4Step?, List.foldlM_cons, Option.bind_eq_bind] at hx hxy hxyz hx4
          obtain ⟨state, hstate, hrest⟩ := Option.bind_eq_some_iff.mp hxyz
          obtain ⟨cells, hcells, rfl⟩ := Option.map_eq_some_iff.mp hstate
          have hadd : Walk.add ⟨sums, p, q⟩ (.xyzAt i value) =
              pure ⟨{ sums with xyzSum := cells }, p, q⟩ := by
            simp only [Walk.add, hcells, access_some, pure_bind]
          rw [hadd, pure_bind]
          exact ih hx hxy hrest hx4
      | x4 i value =>
          simp only [List.filterMap_cons, Addition.xStep?, Addition.xyStep?, Addition.xyzStep?,
            Addition.x4Step?, List.foldlM_cons, Option.bind_eq_bind] at hx hxy hxyz hx4
          obtain ⟨cells, hcells, hrest⟩ := Option.bind_eq_some_iff.mp hx4
          have hadd : Walk.add ⟨sums, p, q⟩ (.x4 i value) =
              pure ⟨{ sums with x4Sum := cells }, p, q⟩ := by
            unfold cellStep at hcells
            simp [Walk.add, hcells]
          rw [hadd, pure_bind]
          exact ih hx hxy hxyz hrest

/-! ## Additions of the layout -/

/-- The additions of a sample with some values, by the arrays that they are made to. -/
structure Adds (request : Request) (v : ℕ → ℚ) (additions : List Addition) : Prop where
  x : additions.filterMap Addition.xStep? =
    (List.range request.ninvars).map fun i => (i, (· + v i))
  xy : additions.filterMap Addition.xyStep? =
    request.pairs.map fun pair => (· + v pair.1 * v pair.2)
  xyz : additions.filterMap Addition.xyzStep? =
    (request.triples.map fun triple =>
      (none, (· + v triple.1 * v triple.2.1 * v triple.2.2))) ++
    (List.range request.thirdCount).map fun i => (some i, (· + v i * v i * v i))
  x4 : additions.filterMap Addition.x4Step? =
    (List.range request.fourthCount).map fun i => (i, (· + v i * v i * v i * v i))

/-- All cells are gone through by their indices. -/
theorem foldlM_cellStep (n : ℕ) (f : ℕ → ℚ → ℚ) (g : ℕ → ℚ) :
    ((List.range n).map fun i => (i, f i)).foldlM cellStep ((List.range n).map g) =
      some ((List.range n).map fun i => f i (g i)) := by
  have hle : n ≤ ((List.range n).map g).length := by simp
  have hfold := foldlM_modifyAt?_range hle f
  rw [modifiedBy_map] at hfold
  exact hfold

/-- All cells are gone through by the pointer. -/
theorem foldlM_walkStep {ι : Type} (indices : List ι) (f : ι → ℚ → ℚ) (g : ι → ℚ) :
    (indices.map f).foldlM walkStep (indices.map g, 0) =
      some (indices.map fun i => f i (g i), indices.length) := by
  have hle : (indices.map f).length ≤ (indices.map g).length := by simp
  have hfold := foldlM_walk hle
  rw [modifiedBy_map, List.length_map] at hfold
  exact hfold

theorem foldlM_mixedStep_walk (steps : List (ℚ → ℚ)) (state : List ℚ × ℕ) :
    (steps.map fun step => ((none : Option ℕ), step)).foldlM mixedStep state =
      steps.foldlM walkStep state := by
  rw [List.foldlM_map]
  rfl

theorem foldlM_mixedStep_cell (steps : List (ℕ × (ℚ → ℚ))) (cells : List ℚ) (q : ℕ) :
    (steps.map fun step => (some step.1, step.2)).foldlM mixedStep (cells, q) =
      (steps.foldlM cellStep cells).map fun cells => (cells, q) := by
  induction steps generalizing cells with
  | nil => rfl
  | cons step steps ih =>
      rw [List.map_cons, List.foldlM_cons, List.foldlM_cons]
      cases hstep : modifyAt? cells step.1 step.2 with
      | none => simp [mixedStep, cellStep, hstep]
      | some next => simp [mixedStep, cellStep, hstep, ih]

section Adds

variable {request : Request} {info : SampleInfo} {samp : ValueSample}

/-- **A sample is added to the sums.** -/
theorem Adds.foldlM_add {additions : List Addition} (samples : List ValueSample)
    (h : Adds request (inputOf info samp) additions) :
    ∃ p q : ℕ, additions.foldlM Walk.add ⟨request.sumsOf info samples, (0 : ℕ), 0⟩ =
      pure ⟨{ request.sumsOf info (samples ++ [samp]) with
        nSamples := (request.sumsOf info samples).nSamples }, p, q⟩ := by
  have hx := foldlM_cellStep request.ninvars (fun i => (· + inputOf info samp i))
    fun i => total (fun samp => inputOf info samp i) samples
  have hxy := foldlM_walkStep request.pairs
    (fun pair => (· + inputOf info samp pair.1 * inputOf info samp pair.2))
    fun pair => total (fun samp => inputOf info samp pair.1 * inputOf info samp pair.2) samples
  have hx4 := foldlM_cellStep request.fourthCount
    (fun i => (· + inputOf info samp i * inputOf info samp i * inputOf info samp i *
      inputOf info samp i))
    fun i => total (fun samp => inputOf info samp i * inputOf info samp i * inputOf info samp i *
      inputOf info samp i) samples
  have hxyz : ∃ q, (additions.filterMap Addition.xyzStep?).foldlM mixedStep
      ((request.sumsOf info samples).xyzSum, 0) =
        some ((request.sumsOf info (samples ++ [samp])).xyzSum, q) := by
    rw [h.xyz]
    unfold Request.sumsOf Request.allThirds
    dsimp only
    rcases triples_eq_nil_or request with htriples | hthird
    · have hcells := foldlM_cellStep request.thirdCount
        (fun i => (· + inputOf info samp i * inputOf info samp i * inputOf info samp i))
        fun i => total (fun samp => inputOf info samp i * inputOf info samp i *
          inputOf info samp i) samples
      have hmixed := foldlM_mixedStep_cell ((List.range request.thirdCount).map fun i =>
        (i, (· + inputOf info samp i * inputOf info samp i * inputOf info samp i)))
        ((List.range request.thirdCount).map fun i => total (fun samp => inputOf info samp i *
          inputOf info samp i * inputOf info samp i) samples) 0
      rw [hcells, List.map_map] at hmixed
      refine ⟨0, ?_⟩
      rw [htriples, List.map_nil, List.nil_append, List.nil_append, List.map_map, List.map_map]
      simpa [total_append, Function.comp_def] using hmixed
    · have hwalk := foldlM_walkStep request.triples
        (fun triple => (· + inputOf info samp triple.1 * inputOf info samp triple.2.1 *
          inputOf info samp triple.2.2))
        fun triple => total (fun samp => inputOf info samp triple.1 *
          inputOf info samp triple.2.1 * inputOf info samp triple.2.2) samples
      rw [← foldlM_mixedStep_walk, List.map_map] at hwalk
      refine ⟨request.triples.length, ?_⟩
      rw [hthird, List.range_zero, List.map_nil, List.map_nil, List.append_nil, List.append_nil]
      simpa [total_append, Function.comp_def] using hwalk
  obtain ⟨q, hq⟩ := hxyz
  refine ⟨request.pairs.length, q, ?_⟩
  rw [← h.x] at hx
  rw [← h.xy] at hxy
  rw [← h.x4] at hx4
  rw [CrossTerms.foldlM_add hx hxy hq hx4]
  simp [Request.sumsOf, total_append]

end Adds

end Nidas.Dynld.CrossTerms
