import Mathlib.Data.Int.Log
import Mathlib.Data.Rat.Floor

/-!
# Rounding of rational numbers

Floating point values are rational numbers.  An operation of a floating point type is the exact
operation followed by `roundTo`, which keeps a number of binary digits; `rint` rounds to an integer.
Both round to the nearest value, and to the even one of two that are equally near.  The range
of the exponent is not limited here.
-/

namespace Nidas.Lib

/-- `::rint` in the default rounding mode -/
def rint (q : ℚ) : ℤ :=
  let rest := q - ⌊q⌋
  if rest < 1 / 2 then ⌊q⌋
  else if 1 / 2 < rest then ⌊q⌋ + 1
  else if ⌊q⌋ % 2 = 0 then ⌊q⌋ else ⌊q⌋ + 1

/-- The unit in the last place of a number with `digits` binary digits. -/
def ulp (digits : ℕ) (q : ℚ) : ℚ := 2 ^ (Int.log 2 |q| - (digits - 1))

/-- The nearest number with `digits` binary digits. -/
def roundTo (digits : ℕ) (q : ℚ) : ℚ := rint (q / ulp digits q) * ulp digits q

/-- Rounding to the type `float`. -/
def roundFloat (q : ℚ) : ℚ := roundTo 24 q

/-- Rounding to the type `double`. -/
def roundDouble (q : ℚ) : ℚ := roundTo 53 q

/-! ## To an integer -/

theorem rint_le {q : ℚ} {n : ℤ} (hle : q ≤ n) : rint q ≤ n := by
  have hfloor : ⌊q⌋ ≤ n := Int.floor_le_iff.mpr (by linarith)
  unfold rint
  dsimp only
  split
  · exact hfloor
  · next hrest =>
      -- a rest of one half or more is not that of an integer
      have hlt : ⌊q⌋ < n := by
        have hcast : (⌊q⌋ : ℚ) < n := by linarith [not_lt.mp hrest]
        exact_mod_cast hcast
      split
      · omega
      · split <;> omega

theorem le_rint {q : ℚ} {n : ℤ} (hle : (n : ℚ) ≤ q) : n ≤ rint q := by
  have hfloor : n ≤ ⌊q⌋ := Int.le_floor.mpr hle
  unfold rint
  dsimp only
  split
  · exact hfloor
  · split
    · omega
    · split <;> omega

theorem le_rint_add_half (q : ℚ) : q ≤ rint q + 1 / 2 := by
  unfold rint
  dsimp only
  split
  · linarith
  · split
    · push_cast
      linarith [Int.lt_floor_add_one q]
    · split
      · linarith
      · push_cast
        linarith [Int.lt_floor_add_one q]

/-! ## To a number of digits

A bound that is a multiple of the unit in the last place is one of the rounded number too. -/

theorem ulp_pos (digits : ℕ) (q : ℚ) : 0 < ulp digits q := by
  exact zpow_pos (by norm_num) _

theorem roundTo_le {digits : ℕ} {q : ℚ} (n : ℤ) (hle : q ≤ n * ulp digits q) :
    roundTo digits q ≤ n * ulp digits q := by
  have hpos := ulp_pos digits q
  have hrint : rint (q / ulp digits q) ≤ n := rint_le ((div_le_iff₀ hpos).mpr hle)
  unfold roundTo
  exact mul_le_mul_of_nonneg_right (by exact_mod_cast hrint) hpos.le

theorem le_roundTo {digits : ℕ} {q : ℚ} (n : ℤ) (hle : n * ulp digits q ≤ q) :
    n * ulp digits q ≤ roundTo digits q := by
  have hpos := ulp_pos digits q
  have hrint : n ≤ rint (q / ulp digits q) := le_rint ((le_div_iff₀ hpos).mpr hle)
  unfold roundTo
  exact mul_le_mul_of_nonneg_right (by exact_mod_cast hrint) hpos.le

theorem roundTo_nonneg {digits : ℕ} {q : ℚ} (hq : 0 ≤ q) : 0 ≤ roundTo digits q := by
  simpa using le_roundTo 0 (by simpa using hq)

theorem pos_of_roundTo_pos {digits : ℕ} {q : ℚ} (hpos : 0 < roundTo digits q) : 0 < q := by
  by_contra hq
  have hle : roundTo digits q ≤ (0 : ℤ) * ulp digits q := roundTo_le 0 (by simpa using hq)
  simp only [Int.cast_zero, zero_mul] at hle
  linarith

/-- A power of two that is not below the unit is a multiple of it. -/
theorem exists_mul_ulp {digits : ℕ} {q : ℚ} {k : ℤ} (hlog : Int.log 2 |q| - (digits - 1) ≤ k) :
    ∃ n : ℤ, (2 : ℚ) ^ k = n * ulp digits q := by
  refine ⟨2 ^ (k - (Int.log 2 |q| - (digits - 1))).toNat, ?_⟩
  have hnat : (((k - (Int.log 2 |q| - (digits - 1))).toNat : ℕ) : ℤ) =
      k - (Int.log 2 |q| - (digits - 1)) := Int.toNat_of_nonneg (by omega)
  unfold ulp
  push_cast
  rw [← zpow_natCast, hnat, ← zpow_add₀ (by norm_num)]
  congr 1
  ring

theorem log_le_of_le {q : ℚ} (hq : 0 < q) {k : ℤ} (hle : q ≤ 2 ^ k) : Int.log 2 |q| ≤ k := by
  rw [abs_of_pos hq]
  have hlog : ((2 : ℕ) : ℚ) ^ Int.log 2 q ≤ q := Int.zpow_log_le_self (by norm_num) hq
  have htwo : (2 : ℚ) ^ Int.log 2 q ≤ 2 ^ k := le_trans (by exact_mod_cast hlog) hle
  exact (zpow_le_zpow_iff_right₀ (by norm_num)).mp htwo

theorem roundTo_le_two_pow {digits : ℕ} (hdigits : 1 ≤ digits) {q : ℚ} (hq : 0 < q) {k : ℤ}
    (hle : q ≤ 2 ^ k) : roundTo digits q ≤ 2 ^ k := by
  have hlog := log_le_of_le hq hle
  obtain ⟨n, hn⟩ := exists_mul_ulp (show Int.log 2 |q| - (digits - 1) ≤ k by omega)
  rw [hn] at hle ⊢
  exact roundTo_le n hle

theorem two_pow_le_roundTo {digits : ℕ} (hdigits : 1 ≤ digits) {q : ℚ} {k : ℤ}
    (hle : 2 ^ k ≤ q) : 2 ^ k ≤ roundTo digits q := by
  have hq : 0 < q := lt_of_lt_of_le (zpow_pos (by norm_num) k) hle
  have hlog : ((2 : ℕ) : ℚ) ^ Int.log 2 q ≤ q := Int.zpow_log_le_self (by norm_num) hq
  have hk : k ≤ Int.log 2 q := by
    have hlt : q < ((2 : ℕ) : ℚ) ^ (Int.log 2 q + 1) := Int.lt_zpow_succ_log_self (by norm_num) q
    have htwo : (2 : ℚ) ^ k < 2 ^ (Int.log 2 q + 1) :=
      lt_of_le_of_lt hle (by exact_mod_cast hlt)
    have hexp := (zpow_lt_zpow_iff_right₀ (by norm_num)).mp htwo
    omega
  obtain ⟨n, hn⟩ := exists_mul_ulp (show Int.log 2 |q| - (digits - 1) ≤ Int.log 2 q by
    rw [abs_of_pos hq]
    omega)
  calc (2 : ℚ) ^ k ≤ 2 ^ Int.log 2 q := zpow_le_zpow_right₀ (by norm_num) hk
    _ = n * ulp digits q := hn
    _ ≤ roundTo digits q := le_roundTo n (by
        rw [← hn]
        exact_mod_cast hlog)

/-- A number that is below one by so much that its digits can tell it stays below one. -/
theorem roundTo_le_one_sub {digits gap : ℕ} (hdigits : gap + 1 ≤ digits) {q : ℚ} (hq : 0 < q)
    (hle : q ≤ 1 - 2 ^ (-gap : ℤ)) : roundTo digits q ≤ 1 - 2 ^ (-gap : ℤ) := by
  have hgap : (0 : ℚ) < 2 ^ (-gap : ℤ) := zpow_pos (by norm_num) _
  have hlt : Int.log 2 |q| < 0 := by
    rw [abs_of_pos hq]
    exact (Int.lt_zpow_iff_log_lt (by norm_num) hq).mp (by
      rw [zpow_zero]
      linarith)
  obtain ⟨one, hone⟩ := exists_mul_ulp (show Int.log 2 |q| - (digits - 1) ≤ 0 by omega)
  obtain ⟨n, hn⟩ := exists_mul_ulp (show Int.log 2 |q| - (digits - 1) ≤ -gap by omega)
  have hbound : (1 : ℚ) - 2 ^ (-gap : ℤ) = ((one - n : ℤ) : ℚ) * ulp digits q := by
    push_cast
    rw [sub_mul, ← hone, ← hn, zpow_zero]
  rw [hbound] at hle ⊢
  exact roundTo_le (one - n) hle

/-- A number above one has no digit behind the last one of those of one. -/
theorem exists_roundTo_eq {digits : ℕ} (hdigits : 1 ≤ digits) {q : ℚ} (hq : 0 < q)
    (hone : 1 < roundTo digits q) :
    ∃ n : ℤ, roundTo digits q * 2 ^ (digits - 1) = n := by
  have hlog : 0 ≤ Int.log 2 |q| := by
    by_contra hneg
    rw [abs_of_pos hq, not_le] at hneg
    have hlt : q < ((2 : ℕ) : ℚ) ^ (0 : ℤ) := (Int.lt_zpow_iff_log_lt (by norm_num) hq).mpr hneg
    have hle := roundTo_le_two_pow hdigits hq (show q ≤ 2 ^ (0 : ℤ) by exact_mod_cast hlt.le)
    rw [zpow_zero] at hle
    linarith
  refine ⟨rint (q / ulp digits q) * 2 ^ (Int.log 2 |q|).toNat, ?_⟩
  have hnat : (((Int.log 2 |q|).toNat : ℕ) : ℤ) = Int.log 2 |q| := Int.toNat_of_nonneg hlog
  have hulp : ulp digits q * 2 ^ (digits - 1) = 2 ^ (Int.log 2 |q|).toNat := by
    unfold ulp
    rw [← zpow_natCast, ← zpow_natCast, hnat, ← zpow_add₀ (by norm_num)]
    congr 1
    omega
  unfold roundTo
  rw [mul_assoc, hulp]
  push_cast
  rfl

end Nidas.Lib
