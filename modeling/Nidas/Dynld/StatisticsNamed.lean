import Nidas.Dynld.StatisticsComputed

/-!
# Statistics by their names

`crunch_eq` puts the layers together: the combinations are those of the layout, the arrays are
allocated for them, the samples are summed up by them, and what is computed from the sums are the
statistics that the output variables are named for.

A scalar flux of two or three variables has one row of products, but `computeStats` takes as many
rows as there are variables unless there are more than three, and reads a row that there is not
(`computeSecond_scalar`).  The count of samples is read as a signed integer of 32 bits.
-/

namespace Nidas.Dynld.CrossTerms

open Core Lib

theorem bind_ne_pure {α β : Type} {first : Except Fault α} {rest : α → Except Fault β} {b : β}
    (hrest : ∀ a, rest a ≠ pure b) : first >>= rest ≠ pure b := by
  cases first with
  | error fault => exact fun h => nomatch h
  | ok a => exact hrest a

theorem bind_eq_pure {α β : Type} {first : Except Fault α} {rest : α → Except Fault β} {b : β}
    (h : first >>= rest = pure b) : ∃ a, first = pure a ∧ rest a = pure b := by
  cases first with
  | error fault => exact nomatch h
  | ok a => exact ⟨a, rfl, h⟩

section Crunch

variable {request : Request} {info : SampleInfo} {samples : List ValueSample}

/-- The output is computed from the sums of the samples. -/
theorem crunch_sums (hrequest : request.Admissible)
    (hcomplete : ∀ samp ∈ samples, Complete request info samp) (junk : ℚ) (junkCount : ℕ) :
    request.crunch junk junkCount info samples = (do
      let (outData, _) ← request.computeStats request.combinations (request.sumsOf info samples)
      pure (request.outVariables, outData)) := by
  obtain ⟨allocated, hinit, hallocated⟩ := initStats_eq hrequest junk junkCount
  unfold Request.crunch
  rw [createCombinations_eq hrequest, pure_bind, hinit, pure_bind,
    zeroStats_eq hrequest hallocated, pure_bind, foldlM_receive hrequest hcomplete, pure_bind]
  rfl

/-- **One period**, from the combinations to the output. -/
theorem crunch_eq (hrequest : request.Admissible) (hsamples : samples ≠ [])
    (hcomplete : ∀ samp ∈ samples, Complete request info samp) (hcount : samples.length < 2 ^ 31)
    (hrows : request.momentRows = request.pairRows) (junk : ℚ) (junkCount : ℕ) :
    request.crunch junk junkCount info samples =
      pure (request.outVariables,
        request.values info samples ++ [some (samples.length : ℚ)]) := by
  rw [crunch_sums hrequest hcomplete, computeStats_eq hrequest hsamples hcount hrows]
  rfl

/-- The moments are put out with the count of samples behind them. -/
theorem computeStats_count {outData : List (Option ℚ)} {sums : Sums}
    (hstats : request.computeStats request.combinations (request.sumsOf info samples) =
      pure (outData, sums)) :
    ∃ values nSamp, nSamp = toInt32 ((samples.length % 2 ^ 32 : ℕ) : ℤ) ∧
      request.computeMoments request.combinations (request.sumsOf info samples) nSamp =
        pure values ∧ outData = values ++ [some (nSamp : ℚ)] := by
  unfold Request.computeStats at hstats
  obtain ⟨count, hcount, hstats⟩ := bind_eq_pure hstats
  cases hcount
  dsimp only at hstats
  obtain ⟨values, hvalues, hstats⟩ := bind_eq_pure hstats
  obtain ⟨-, -, hstats⟩ := bind_eq_pure hstats
  obtain ⟨all, hall, hstats⟩ := bind_eq_pure hstats
  obtain ⟨cleared, -, hstats⟩ := bind_eq_pure hstats
  cases hstats
  refine ⟨values, _, rfl, hvalues, ?_⟩
  unfold putOut at hall
  split at hall
  · cases hall
    rfl
  · cases hall

/-- The row behind the only one of a scalar flux. -/
theorem computeSecond_scalar (htype : request.type = .sflux)
    (hfew : request.ninvars = 2 ∨ request.ninvars = 3) (nSamp : ℤ) (xSum : List ℚ)
    (outData values : List (Option ℚ)) :
    request.computeSecond (request.sumsOf info samples) nSamp xSum outData ≠ pure values := by
  have hmomentRows : request.momentRows = request.ninvars := by
    unfold Request.momentRows
    rw [htype]
    rcases hfew with hfew | hfew <;> simp [hfew]
  have hrow : (request.sumsOf info samples).xyValue 1 1 = .error .outOfBounds := by
    have hrowCount : request.rowCount = 1 := if_pos htype
    unfold Sums.xyValue Sums.xyPosition
    simp [Request.sumsOf, hrowCount]
    rfl
  unfold Request.computeSecond
  rw [hmomentRows, forRange_succ (by omega)]
  -- the first row is that of the scalar
  apply bind_ne_pure
  intro outData hrest
  have hlt : 1 < request.ninvars := by omega
  rw [Nat.zero_add, forRange_succ hlt, if_neg (by omega), forRange_succ hlt, hrow] at hrest
  cases hrest

end Crunch

/-! ## A scalar flux of two variables -/

/-- A scalar and a wind. -/
def scalarFluxOfTwo : Request := ⟨2, fun _ => "w", .sflux, false⟩

/-- A sample with a value of each. -/
def oneOfTwo : ValueSample := ⟨1, 1, .float, [some 3, some 5]⟩

def infoOfTwo : SampleInfo := { varIndices := [(0, 0), (1, 1)] }

theorem complete_oneOfTwo (type : CrossType) :
    Complete ⟨2, fun _ => "w", type, false⟩ infoOfTwo oneOfTwo := by
  constructor
  case inputs => rfl
  case numbers => decide +kernel
  case counted =>
    have hcounted : 2 ≤ nonNANs infoOfTwo oneOfTwo := by decide +kernel
    exact hcounted

end Nidas.Dynld.CrossTerms
