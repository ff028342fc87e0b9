import Mathlib.Data.Int.Log
import Mathlib.Data.Nat.Digits.Defs
import Nidas.Lib.NumberText
import Nidas.Lib.Rounding

/-!
# Numbers that are printed

What an output stream prints of a number: an integer (`printNat`), a number with some decimal places
(`printFixed`), or with some digits in the shorter one of two forms (`printGeneral`).  Digits are
read back by `valueOfDigits` (`valueOfDigits_printNat`, `valueOfDigits_printed`).
-/

namespace Nidas.Lib

/-! ## Digits -/

/-- An integer, without leading zeros. -/
def printNat (n : ℕ) : List Char := Nat.toDigits 10 n

/-- The last digits of an integer. -/
def lastDigits : ℕ → ℕ → List Char
  | 0, _ => []
  | count + 1, n => lastDigits count (n / 10) ++ [Nat.digitChar (n % 10)]

theorem digitValue_digitChar {n : ℕ} (hlt : n < 10) : digitValue (Nat.digitChar n) = some n := by
  revert n
  decide

theorem isDigitOf_digitChar {n : ℕ} (hlt : n < 10) : isDigitOf 10 (Nat.digitChar n) = true := by
  revert n
  decide

theorem valueOfDigits_append (base : ℕ) (first : List Char) (c : Char) :
    valueOfDigits base (first ++ [c]) =
      valueOfDigits base first * base + (digitValue c).getD 0 := by
  simp [valueOfDigits]

theorem isDigitOf_of_mem_printNat {n : ℕ} {c : Char} (hmem : c ∈ printNat n) :
    isDigitOf 10 c = true := by
  unfold printNat at hmem
  induction n using Nat.strong_induction_on with
  | h n ih =>
      rw [Nat.toDigits_eq_if (by decide)] at hmem
      split at hmem
      · next hlt =>
          rw [List.mem_singleton.mp hmem]
          exact isDigitOf_digitChar hlt
      · next hge =>
          rcases List.mem_append.mp hmem with hfirst | hlast
          · exact ih (n / 10) (by omega) hfirst
          · rw [List.mem_singleton.mp hlast]
            exact isDigitOf_digitChar (Nat.mod_lt _ (by decide))

theorem printNat_ne_nil (n : ℕ) : printNat n ≠ [] := Nat.toDigits_ne_nil

/-- **An integer is read back.** -/
theorem valueOfDigits_printNat (n : ℕ) : valueOfDigits 10 (printNat n) = n := by
  unfold printNat
  induction n using Nat.strong_induction_on with
  | h n ih =>
      rw [Nat.toDigits_eq_if (by decide)]
      split
      · next hlt => simp [valueOfDigits, digitValue_digitChar hlt]
      · next hge =>
          rw [valueOfDigits_append, ih (n / 10) (by omega),
            digitValue_digitChar (Nat.mod_lt _ (by decide)), Option.getD_some]
          omega

@[simp] theorem length_lastDigits (count n : ℕ) : (lastDigits count n).length = count := by
  induction count generalizing n with
  | zero => rfl
  | succ count ih => simp [lastDigits, ih]

theorem isDigitOf_of_mem_lastDigits {count n : ℕ} {c : Char} (hmem : c ∈ lastDigits count n) :
    isDigitOf 10 c = true := by
  induction count generalizing n with
  | zero => cases hmem
  | succ count ih =>
      rcases List.mem_append.mp hmem with hfirst | hlast
      · exact ih hfirst
      · rw [List.mem_singleton.mp hlast]
        exact isDigitOf_digitChar (Nat.mod_lt _ (by decide))

theorem valueOfDigits_lastDigits (first : List Char) (count n : ℕ) :
    valueOfDigits 10 (first ++ lastDigits count n) =
      valueOfDigits 10 first * 10 ^ count + n % 10 ^ count := by
  induction count generalizing n with
  | zero => simp [lastDigits, Nat.mod_one]
  | succ count ih =>
      have hsplit : n % 10 ^ (count + 1) = n / 10 % 10 ^ count * 10 + n % 10 := by
        rw [pow_succ', Nat.mod_mul]
        ring
      rw [lastDigits, ← List.append_assoc, valueOfDigits_append, ih,
        digitValue_digitChar (Nat.mod_lt _ (by decide)), Option.getD_some, hsplit]
      ring

/-! ## Decimal places -/

/-- A number in units of the last decimal place. -/
def inPlaces (places : ℕ) (q : ℚ) : ℕ := (rint (|q| * 10 ^ places)).toNat

/-- A number of the form `fixed`, with some decimal places. -/
def printFixed (places : ℕ) (q : ℚ) : List Char :=
  (if q < 0 then ['-'] else []) ++ printNat (inPlaces places q / 10 ^ places) ++
    if places = 0 then [] else '.' :: lastDigits places (inPlaces places q)

/-- **The digits of both parts together.** -/
theorem valueOfDigits_printed (places n : ℕ) :
    valueOfDigits 10 (printNat (n / 10 ^ places) ++ lastDigits places n) = n := by
  rw [valueOfDigits_lastDigits, valueOfDigits_printNat, Nat.div_add_mod']

/-! ## The general form -/

/-- The digits behind the decimal point, without zeros at the end. -/
def fraction (digits : List Char) : List Char :=
  if digits.reverse.dropWhile (· = '0') = [] then []
  else '.' :: (digits.reverse.dropWhile (· = '0')).reverse

/-- An exponent, with two digits or more. -/
def printExponent (exponent : ℤ) : List Char :=
  'e' :: (if exponent < 0 then '-' else '+') ::
    if exponent.natAbs < 100 then lastDigits 2 exponent.natAbs else printNat exponent.natAbs

/-- Some digits of a number whose first digit has an exponent. -/
def printDigits (digits : List Char) (exponent : ℤ) : List Char :=
  if exponent < -4 ∨ (digits.length : ℤ) ≤ exponent then
    digits.take 1 ++ fraction (digits.drop 1) ++ printExponent exponent
  else if exponent < 0 then
    '0' :: fraction (List.replicate (-exponent - 1).toNat '0' ++ digits)
  else digits.take (exponent.toNat + 1) ++ fraction (digits.drop (exponent.toNat + 1))

/-- A number of the general form, with a precision. -/
def printGeneral (precision : ℕ) (q : ℚ) : List Char :=
  if q = 0 then ['0']
  else
    let exponent := Int.log 10 |q|
    let rounded := (rint (|q| / 10 ^ (exponent - (precision - 1)))).toNat
    (if q < 0 then ['-'] else []) ++
      -- rounding may carry into one more digit
      if rounded = 10 ^ precision then
        printDigits (lastDigits precision (10 ^ (precision - 1))) (exponent + 1)
      else printDigits (lastDigits precision rounded) exponent

/-- A character of a number. -/
def InNumber (c : Char) : Prop := isDigitOf 10 c = true ∨ c ∈ ['.', '-', '+', 'e']

theorem inNumber_of_mem_fraction {digits : List Char} (hdigits : ∀ c ∈ digits, InNumber c) :
    ∀ c ∈ fraction digits, InNumber c := by
  unfold fraction
  split
  · simp
  · intro c hmem
    rcases List.mem_cons.mp hmem with rfl | hrest
    · exact .inr (by simp)
    · have hsuffix := (List.dropWhile_sublist (fun c => decide (c = '0'))).subset
        (List.mem_reverse.mp hrest)
      exact hdigits c (List.mem_reverse.mp hsuffix)

theorem inNumber_of_mem_printExponent (exponent : ℤ) :
    ∀ c ∈ printExponent exponent, InNumber c := by
  intro c hmem
  unfold printExponent at hmem
  rcases List.mem_cons.mp hmem with rfl | hmem
  · exact .inr (by simp)
  · rcases List.mem_cons.mp hmem with rfl | hmem
    · right
      split <;> simp
    · left
      split at hmem
      · exact isDigitOf_of_mem_lastDigits hmem
      · exact isDigitOf_of_mem_printNat hmem

theorem inNumber_of_mem_printDigits {digits : List Char} (hdigits : ∀ c ∈ digits, InNumber c)
    (exponent : ℤ) : ∀ c ∈ printDigits digits exponent, InNumber c := by
  have htake : ∀ n, ∀ c ∈ digits.take n, InNumber c :=
    fun n c hmem => hdigits c (List.mem_of_mem_take hmem)
  have hdrop : ∀ n, ∀ c ∈ fraction (digits.drop n), InNumber c :=
    fun n => inNumber_of_mem_fraction fun c hmem => hdigits c (List.mem_of_mem_drop hmem)
  intro c hmem
  unfold printDigits at hmem
  split at hmem
  · rcases List.mem_append.mp hmem with hmem | hmem
    · rcases List.mem_append.mp hmem with hmem | hmem
      · exact htake 1 c hmem
      · exact hdrop 1 c hmem
    · exact inNumber_of_mem_printExponent exponent c hmem
  · split at hmem
    · rcases List.mem_cons.mp hmem with rfl | hmem
      · exact .inl rfl
      · refine inNumber_of_mem_fraction (fun c hmem => ?_) c hmem
        rcases List.mem_append.mp hmem with hmem | hmem
        · rw [List.eq_of_mem_replicate hmem]
          exact .inl rfl
        · exact hdigits c hmem
    · rcases List.mem_append.mp hmem with hmem | hmem
      · exact htake _ c hmem
      · exact hdrop _ c hmem

/-- Only these characters are in a number. -/
theorem inNumber_of_mem_printGeneral {precision : ℕ} {q : ℚ} :
    ∀ c ∈ printGeneral precision q, InNumber c := by
  have hdigits : ∀ n, ∀ c ∈ lastDigits precision n, InNumber c :=
    fun n c hmem => .inl (isDigitOf_of_mem_lastDigits hmem)
  intro c hmem
  unfold printGeneral at hmem
  split at hmem
  · rw [List.mem_singleton.mp hmem]
    exact .inl rfl
  · rcases List.mem_append.mp hmem with hmem | hmem
    · split at hmem
      · rw [List.mem_singleton.mp hmem]
        exact .inr (by simp)
      · cases hmem
    · split at hmem
      · exact inNumber_of_mem_printDigits (hdigits _) _ c hmem
      · exact inNumber_of_mem_printDigits (hdigits _) _ c hmem

end Nidas.Lib
