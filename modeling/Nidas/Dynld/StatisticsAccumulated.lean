import Nidas.Dynld.StatisticsLayout
import Nidas.Lib.Moments

/-!
# What has been summed up

The arrays hold the sums of the products of the layout over the samples that have been received
(`sumsOf`).  `initStats` and `zeroStats` make those of no samples.  The loops of `receive` are lists
of additions; they are taken apart by the arrays that they are made to, which do not depend on each
other (`foldlM_add`), and each of these arrays is gone through from its first cell to its last.
-/

namespace Nidas.Dynld.CrossTerms

open Core Lib

/-! ## Accesses -/

@[simp] theorem access_some {α : Type*} (value : α) : access (some value) = pure value := rfl

@[simp] theorem assert_true : assert true = pure () := rfl

theorem foldlM_access {α β : Type} (f : α → β → Option α) (steps : List β) (state : α) :
    steps.foldlM (fun state step => access (f state step)) state =
      access (steps.foldlM f state) := by
  induction steps generalizing state with
  | nil => rfl
  | cons step steps ih =>
      rw [List.foldlM_cons, List.foldlM_cons]
      cases hstep : f state step with
      | none => rfl
      | some next => exact ih next

theorem clear_eq {α : Type} [Zero α] {n : ℕ} {cells : List α} (hlength : cells.length = n) :
    clear n cells = pure (List.replicate n 0) := by
  have hall : modifiedBy ((List.range n).map fun _ _ => 0) cells = List.replicate n 0 := by
    have hzeros : (List.replicate n (0 : α)).length = cells.length := by
      rw [List.length_replicate, hlength]
    have hconst := modifiedBy_const hzeros
    rw [List.map_replicate] at hconst
    rw [← hconst]
    congr 1
    simp
  unfold clear
  rw [forRange_eq_foldlM_map (fun cells step => access (modifyAt? cells step.1 step.2))
      (fun i => (i, fun _ => (0 : α))) fun _ _ _ _ => rfl, foldlM_access, Nat.sub_zero,
    ← List.range_eq_range', foldlM_modifyAt?_range hlength.ge fun _ _ => (0 : α), hall]
  rfl

/-! ## The sums of some samples -/

/-- The value of an input variable of a sample that is complete. -/
def inputOf (info : SampleInfo) (samp : ValueSample) (i : ℕ) : ℚ :=
  ((info.varIndices[i]?).bind fun index => samp.value? index.1).getD 0

namespace Request

variable (request : Request)

/-- The number of rows of `_xySum`. -/
def rowCount : ℕ := if request.type = .sflux then 1 else request.ninvars

/-- The triples of variables of `_xyzSum`, where moments of order 3 are triples of one variable. -/
def allThirds : List (ℕ × ℕ × ℕ) :=
  request.triples ++ (List.range request.thirdCount).map fun i => (i, i, i)

/-- The arrays when some samples have been received. -/
def sumsOf (info : SampleInfo) (samples : List ValueSample) : Sums where
  outlen := request.outVariables.length + 1
  xSum := (List.range request.ninvars).map fun i => total (fun samp => inputOf info samp i) samples
  rows := (List.range request.rowCount).map fun i => (rowStart request.rowWidth i : ℤ) - i
  xySum := request.pairs.map fun pair =>
    total (fun samp => inputOf info samp pair.1 * inputOf info samp pair.2) samples
  xyzSum := request.allThirds.map fun triple =>
    total (fun samp => inputOf info samp triple.1 * inputOf info samp triple.2.1 *
      inputOf info samp triple.2.2) samples
  x4Sum := (List.range request.fourthCount).map fun i =>
    total (fun samp => inputOf info samp i * inputOf info samp i * inputOf info samp i *
      inputOf info samp i) samples
  nSamples := samples.length % 2 ^ 32 :: List.replicate (request.ninvars - 1) 0

/-- Arrays of the right lengths. -/
structure Allocated (sums : Sums) : Prop where
  outlen : sums.outlen = request.outVariables.length + 1
  xSum : sums.xSum.length = request.ninvars
  rows : sums.rows = (List.range request.rowCount).map fun i =>
    (rowStart request.rowWidth i : ℤ) - i
  xySum : sums.xySum.length = request.pairs.length
  xyzSum : sums.xyzSum.length = request.allThirds.length
  x4Sum : sums.x4Sum.length = request.fourthCount
  nSamples : sums.nSamples.length = request.ninvars

end Request

section Allocated

variable {request : Request} {info : SampleInfo}

theorem Request.Admissible.rowCount_pos (hrequest : request.Admissible) :
    0 < request.rowCount := by
  unfold Request.rowCount
  have hpos := hrequest.pos
  split <;> omega

/-- Without triples or without other moments of order 3. -/
theorem triples_eq_nil_or (request : Request) : request.triples = [] ∨ request.thirdCount = 0 := by
  unfold Request.triples Request.thirdCount
  cases request.type <;> simp

theorem length_allThirds (request : Request) :
    request.allThirds.length = request.triples.length + request.thirdCount := by
  simp [Request.allThirds]

theorem Request.Admissible.pairRows_pos (hrequest : request.Admissible) :
    0 < request.pairRows := by
  have hpos := hrequest.pos
  unfold Request.pairRows
  split <;> omega

theorem length_pairs_pos (hrequest : request.Admissible) : 0 < request.pairs.length := by
  have hfirst : rowStart request.rowWidth 1 ≤ rowStart request.rowWidth request.pairRows :=
    rowStart_le hrequest.pairRows_pos
  have hpos := hrequest.pos
  rw [rowStart_succ, rowWidth_of_le (by omega)] at hfirst
  unfold Request.pairs
  rw [length_flatRows]
  omega

theorem initRows_eq (hrequest : request.Admissible) :
    request.initRows request.combinations =
      pure ((List.range request.rowCount).map fun i => (rowStart request.rowWidth i : ℤ) - i) := by
  have hloop : ∀ rows, forRange 0 rows
      (fun i (state : List ℤ × ℤ) =>
        (pure (state.1 ++ [state.2 - (i : ℤ)], state.2 + request.rowWidth i) :
          Except Fault (List ℤ × ℤ))) ([], 0) =
      pure ((List.range rows).map fun i => (rowStart request.rowWidth i : ℤ) - i,
        (rowStart request.rowWidth rows : ℤ)) := by
    intro rows
    unfold forRange
    rw [Nat.sub_zero, ← List.range_eq_range']
    induction rows with
    | zero => rfl
    | succ rows ih =>
        rw [List.range_succ, List.foldlM_append, ih, pure_bind, rowStart_succ, Nat.cast_add]
        simp
  have hncov : request.combinations.ncov > 0 := length_pairs_pos hrequest
  unfold Request.initRows
  rw [if_pos hncov, hloop]
  rfl

theorem initStats_eq (hrequest : request.Admissible) (junk : ℚ) (junkCount : ℕ) :
    ∃ sums, request.initStats junk junkCount request.combinations = pure sums ∧
      request.Allocated sums := by
  unfold Request.initStats
  rw [initRows_eq hrequest]
  refine ⟨_, rfl, ?_⟩
  constructor
  case outlen => exact if_pos rfl
  case xSum => exact List.length_replicate
  case rows => rfl
  case xySum => exact List.length_replicate
  case xyzSum =>
    rw [List.length_replicate, length_allThirds]
    dsimp only [Request.combinations]
    rcases triples_eq_nil_or request with htriples | hthird
    · simp [htriples]
    · by_cases hpos : request.triples.length > 0
      · simp [hthird, hpos]
      · simp [hthird, hpos]
        omega
  case x4Sum => exact List.length_replicate
  case nSamples => exact List.length_replicate

/-- The position of a pair in its row. -/
theorem Request.Allocated.xyPosition_zero {sums : Sums} (h : request.Allocated sums)
    (hrequest : request.Admissible) (i : ℕ) : sums.xyPosition 0 i = some i := by
  have hrow : sums.rows[0]? = some 0 := by
    rw [h.rows, List.getElem?_map, List.getElem?_range hrequest.rowCount_pos]
    rfl
  unfold Sums.xyPosition position
  rw [hrow]
  simp

theorem clearXy_eq {sums : Sums} (h : request.Allocated sums) (hrequest : request.Admissible)
    {n : ℕ} {cells : List ℚ} (hlength : cells.length = n) :
    sums.clearXy n cells = pure (List.replicate n 0) := by
  rw [← clear_eq hlength]
  unfold Sums.clearXy clear
  congr 1
  funext i state
  rw [h.xyPosition_zero hrequest]
  rfl

/-- **The sums of no samples.** -/
theorem zeroStats_eq (hrequest : request.Admissible) {sums : Sums} (h : request.Allocated sums) :
    sums.zeroStats request.combinations = pure (request.sumsOf info []) := by
  have hnone : ∀ cells : List ℚ, clear 0 cells = pure cells := fun _ => rfl
  have hsecond : ∀ cells, sums.clearXy 0 cells = pure cells := fun _ => rfl
  have hthirds : (clear request.triples.length sums.xyzSum >>= clear request.thirdCount) =
      pure (List.replicate request.allThirds.length 0) := by
    have hlength := h.xyzSum
    rw [length_allThirds] at hlength ⊢
    rcases triples_eq_nil_or request with htriples | hthird
    · rw [htriples, List.length_nil, Nat.zero_add] at hlength ⊢
      rw [hnone, pure_bind, clear_eq hlength]
    · rw [hthird, Nat.add_zero] at hlength ⊢
      rw [clear_eq hlength, pure_bind, hnone]
  have hcount : List.replicate request.ninvars 0 =
      0 :: List.replicate (request.ninvars - 1) 0 := by
    rw [← List.replicate_succ, Nat.sub_add_cancel hrequest.pos]
  unfold Sums.zeroStats Request.combinations
  dsimp only
  rw [clear_eq h.xSum, pure_bind, clearXy_eq h hrequest h.xySum, pure_bind, hsecond, pure_bind,
    ← bind_assoc, hthirds, pure_bind, clear_eq h.x4Sum, pure_bind, clear_eq h.nSamples, pure_bind,
    h.outlen, h.rows, hcount]
  simp [Request.sumsOf]

end Allocated

end Nidas.Dynld.CrossTerms
