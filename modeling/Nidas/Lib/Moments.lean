import Mathlib.Algebra.BigOperators.Group.List.Basic
import Mathlib.Algebra.Order.BigOperators.Group.List
import Mathlib.Algebra.Order.Field.Basic
import Mathlib.Tactic.FieldSimp
import Mathlib.Tactic.Ring

/-!
# Moments of samples

The mean and the central moments of some quantities over a list of samples, each sample with the
same weight.  Programs do not compute them as they are defined, but from the sums of the products of
the quantities themselves; `centralMoment_pair`, `centralMoment_triple` and `centralMoment_fourth`
are the formulas.  They are polynomials in the sums, which follow from those about arbitrary centers
(`total_pair` and so on) by induction on the samples.
-/

namespace Nidas.Lib

variable {α K : Type*} [Field K]

/-- The sum of a quantity over the samples. -/
def total (f : α → K) (samples : List α) : K := (samples.map f).sum

def mean (f : α → K) (samples : List α) : K := total f samples / samples.length

/-- The mean of the product of the deviations of some quantities from their means. -/
def centralMoment (fs : List (α → K)) (samples : List α) : K :=
  mean (fun x => (fs.map fun f => f x - mean f samples).prod) samples

variable {f g h : α → K} {samples : List α}

theorem total_append (f : α → K) (samples others : List α) :
    total f (samples ++ others) = total f samples + total f others := by
  simp [total]

@[simp] theorem total_nil (f : α → K) : total f [] = 0 := rfl

@[simp] theorem total_singleton (f : α → K) (x : α) : total f [x] = f x := by
  simp [total]

theorem total_cons (f : α → K) (x : α) (samples : List α) :
    total f (x :: samples) = f x + total f samples := by
  simp [total]

/-! ## Sums of products of deviations -/

theorem total_pair (f g : α → K) (a b : K) (samples : List α) :
    total (fun x => (f x - a) * (g x - b)) samples =
      total (fun x => f x * g x) samples - a * total g samples - b * total f samples +
        samples.length * (a * b) := by
  induction samples with
  | nil => simp
  | cons x samples ih =>
      simp only [total_cons, ih, List.length_cons, Nat.cast_add, Nat.cast_one]
      ring

theorem total_triple (f g h : α → K) (a b c : K) (samples : List α) :
    total (fun x => (f x - a) * ((g x - b) * (h x - c))) samples =
      total (fun x => f x * g x * h x) samples - a * total (fun x => g x * h x) samples -
        b * total (fun x => f x * h x) samples - c * total (fun x => f x * g x) samples +
          b * c * total f samples + a * c * total g samples + a * b * total h samples -
            samples.length * (a * b * c) := by
  induction samples with
  | nil => simp
  | cons x samples ih =>
      simp only [total_cons, ih, List.length_cons, Nat.cast_add, Nat.cast_one]
      ring

theorem total_fourth (f : α → K) (a : K) (samples : List α) :
    total (fun x => (f x - a) ^ 4) samples =
      total (fun x => f x * f x * f x * f x) samples -
          4 * a * total (fun x => f x * f x * f x) samples +
        6 * a ^ 2 * total (fun x => f x * f x) samples - 4 * a ^ 3 * total f samples +
          samples.length * a ^ 4 := by
  induction samples with
  | nil => simp
  | cons x samples ih =>
      simp only [total_cons, ih, List.length_cons, Nat.cast_add, Nat.cast_one]
      ring

/-! ## The formulas -/

section Formulas

variable [CharZero K]

theorem total_eq_mean (hsamples : samples ≠ []) (f : α → K) :
    total f samples = samples.length * mean f samples := by
  have hlength : (samples.length : K) ≠ 0 := by
    simpa using hsamples
  rw [mean, mul_div_cancel₀ _ hlength]

theorem centralMoment_pair (hsamples : samples ≠ []) (f g : α → K) :
    centralMoment [f, g] samples =
      total (fun x => f x * g x) samples / samples.length - mean f samples * mean g samples := by
  have hlength : (samples.length : K) ≠ 0 := by
    simpa using hsamples
  have hsum := total_pair f g (mean f samples) (mean g samples) samples
  rw [total_eq_mean hsamples f, total_eq_mean hsamples g] at hsum
  simp only [centralMoment, List.map_cons, List.map_nil, List.prod_cons, List.prod_nil, mul_one]
  rw [mean, hsum]
  field_simp
  ring

theorem centralMoment_triple (hsamples : samples ≠ []) (f g h : α → K) :
    centralMoment [f, g, h] samples =
      (total (fun x => f x * g x * h x) samples -
          mean f samples * total (fun x => g x * h x) samples -
          mean g samples * total (fun x => f x * h x) samples -
          mean h samples * total (fun x => f x * g x) samples) / samples.length +
        2 * mean f samples * mean g samples * mean h samples := by
  have hlength : (samples.length : K) ≠ 0 := by
    simpa using hsamples
  have hsum := total_triple f g h (mean f samples) (mean g samples) (mean h samples) samples
  rw [total_eq_mean hsamples f, total_eq_mean hsamples g, total_eq_mean hsamples h] at hsum
  simp only [centralMoment, List.map_cons, List.map_nil, List.prod_cons, List.prod_nil, mul_one]
  rw [mean, hsum]
  field_simp
  ring

theorem centralMoment_fourth (hsamples : samples ≠ []) (f : α → K) :
    centralMoment [f, f, f, f] samples =
      total (fun x => f x * f x * f x * f x) samples / samples.length -
          4 * mean f samples * total (fun x => f x * f x * f x) samples / samples.length +
          6 * mean f samples * mean f samples * total (fun x => f x * f x) samples /
            samples.length -
        3 * mean f samples * mean f samples * mean f samples * mean f samples := by
  have hlength : (samples.length : K) ≠ 0 := by
    simpa using hsamples
  have hsum := total_fourth f (mean f samples) samples
  have hpower : ∀ x, (f x - mean f samples) * ((f x - mean f samples) *
      ((f x - mean f samples) * (f x - mean f samples))) = (f x - mean f samples) ^ 4 := by
    intro x
    ring
  rw [total_eq_mean hsamples f] at hsum
  simp only [centralMoment, List.map_cons, List.map_nil, List.prod_cons, List.prod_nil, mul_one,
    hpower]
  rw [mean, hsum]
  field_simp
  ring

end Formulas

theorem centralMoment_swap (f g : α → K) (samples : List α) :
    centralMoment [f, g] samples = centralMoment [g, f] samples := by
  simp only [centralMoment, List.map_cons, List.map_nil, List.prod_cons, List.prod_nil, mul_one]
  congr 1
  funext x
  ring

/-- A sample does not deviate from its own mean. -/
theorem centralMoment_of_length_lt_two (hlength : samples.length < 2) (fs : List (α → K)) :
    centralMoment (f :: fs) samples = 0 := by
  match samples, hlength with
  | [], _ => simp [centralMoment, mean]
  | [x], _ => simp [centralMoment, mean]

section Order

variable [LinearOrder K] [IsStrictOrderedRing K]

theorem mean_nonneg (hf : ∀ x, 0 ≤ f x) (samples : List α) : 0 ≤ mean f samples := by
  apply div_nonneg _ (Nat.cast_nonneg _)
  apply List.sum_nonneg
  intro value hvalue
  obtain ⟨x, -, rfl⟩ := List.mem_map.mp hvalue
  exact hf x

theorem centralMoment_pair_nonneg (f : α → K) (samples : List α) :
    0 ≤ centralMoment [f, f] samples := by
  apply mean_nonneg
  intro x
  simpa using mul_self_nonneg (f x - mean f samples)

theorem centralMoment_fourth_nonneg (f : α → K) (samples : List α) :
    0 ≤ centralMoment [f, f, f, f] samples := by
  apply mean_nonneg
  intro x
  have hsquare := mul_self_nonneg ((f x - mean f samples) * (f x - mean f samples))
  simpa [mul_assoc] using hsquare

end Order

end Nidas.Lib
