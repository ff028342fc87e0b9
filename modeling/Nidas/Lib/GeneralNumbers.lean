import Mathlib.Data.List.DropRight
import Mathlib.Tactic.FieldSimp
import Nidas.Lib.TextStream

/-!
# Numbers of the general form are read back

The general form of a number has a precision: its digits are those of `significant`.  Zeros at the
end of the decimal places are left out, and there is an exponent only for numbers that are very
large or very small, but the characters always have that value (`floatParts_printGeneral`).
-/

namespace Nidas.Lib

/-! ## Decimal places without zeros at the end -/

/-- Digits without the zeros at their end. -/
def trimmed (digits : List Char) : List Char := digits.rdropWhile fun c => c = '0'

theorem fraction_eq (digits : List Char) :
    fraction digits = if trimmed digits = [] then [] else '.' :: trimmed digits := by
  unfold fraction trimmed List.rdropWhile
  simp

/-- Zeros at the end do not change the value of the decimal places. -/
theorem value_trimmed (first digits : List Char) :
    (valueOfDigits 10 (first ++ trimmed digits) : ℚ) / 10 ^ (trimmed digits).length =
      valueOfDigits 10 (first ++ digits) / 10 ^ digits.length := by
  unfold trimmed
  induction digits using List.reverseRecOn with
  | nil => rfl
  | append_singleton digits c ih =>
      by_cases hzero : c = '0'
      · have hvalue : valueOfDigits 10 (first ++ (digits ++ [c])) =
            valueOfDigits 10 (first ++ digits) * 10 := by
          rw [← List.append_assoc, valueOfDigits_append, hzero]
          rfl
        rw [List.rdropWhile_concat_pos _ _ _ (by simpa using hzero), ih, hvalue, List.length_append,
          List.length_singleton, pow_succ]
        push_cast
        field_simp
      · rw [List.rdropWhile_concat_neg _ _ _ (by simpa using hzero)]

theorem isDigitOf_of_mem_trimmed {digits : List Char}
    (hdigits : ∀ c ∈ digits, isDigitOf 10 c = true)
    {c : Char} (hmem : c ∈ trimmed digits) : isDigitOf 10 c = true :=
  hdigits c ((List.rdropWhile_prefix _ _).subset hmem)

/-! ## What is taken for a number -/

/-- The characters of a number: a sign, digits, decimal places and an exponent. -/
structure NumberText where
  negative : Bool
  digits : List Char
  places : List Char
  exponent : Option ℤ

namespace NumberText

def exponentText : Option ℤ → List Char
  | none => []
  | some exponent => printExponent exponent

def text (number : NumberText) : List Char :=
  (if number.negative then ['-'] else []) ++ (number.digits ++ (fraction number.places ++
    exponentText number.exponent))

/-- All of its digits are decimal ones, and some are in front of the point. -/
structure Proper (number : NumberText) : Prop where
  ne_nil : number.digits ≠ []
  digits : ∀ c ∈ number.digits, isDigitOf 10 c = true
  places : ∀ c ∈ number.places, isDigitOf 10 c = true

/-- Its value. -/
def value (number : NumberText) : ℚ :=
  (if number.negative then -1 else 1) *
    (valueOfDigits 10 (number.digits ++ number.places) / 10 ^ number.places.length) *
    10 ^ (number.exponent.getD 0)

/-- The exponent as it is scanned. -/
def scannedExponent : Option ℤ → Option (Bool × List Char)
  | none => none
  | some exponent => some (decide (exponent < 0),
      if exponent.natAbs < 100 then lastDigits 2 exponent.natAbs else printNat exponent.natAbs)

end NumberText

theorem takeSign_of_digit {c : Char} (hc : isDigitOf 10 c = true) (rest : List Char) :
    takeSign (c :: rest) = (false, c :: rest) := by
  unfold takeSign
  split
  · next heq =>
      rw [(List.cons.inj heq).1] at hc
      cases hc
  · next heq =>
      rw [(List.cons.inj heq).1] at hc
      cases hc
  · rfl

theorem takeExponent_exponentText (exponent : Option ℤ) :
    takeExponent (NumberText.exponentText exponent) =
      (NumberText.scannedExponent exponent, []) := by
  cases exponent with
  | none => rfl
  | some exponent =>
      have hdigits : ∀ c ∈ (if exponent.natAbs < 100 then lastDigits 2 exponent.natAbs
          else printNat exponent.natAbs), isDigitOf 10 c = true := by
        intro c hmem
        split at hmem
        · exact isDigitOf_of_mem_lastDigits hmem
        · exact isDigitOf_of_mem_printNat hmem
      have hsign : ∀ text, takeSign ((if exponent < 0 then '-' else '+') :: text) =
          (decide (exponent < 0), text) := by
        intro text
        by_cases hneg : exponent < 0
        · rw [if_pos hneg, decide_eq_true hneg]
          rfl
        · rw [if_neg hneg, decide_eq_false hneg]
          rfl
      unfold NumberText.exponentText printExponent
      dsimp only
      rw [takeExponent, hsign, List.takeWhile_eq_self_iff.mpr hdigits,
        List.dropWhile_eq_nil_iff.mpr hdigits]
      rfl

/-- The exponent is that of a power of ten. -/
theorem powerOf_scannedExponent (exponent : Option ℤ) :
    powerOf (NumberText.scannedExponent exponent) = 10 ^ (exponent.getD 0) := by
  cases exponent with
  | none => simp [NumberText.scannedExponent, powerOf]
  | some exponent =>
      have hvalue : valueOfDigits 10 (if exponent.natAbs < 100 then lastDigits 2 exponent.natAbs
          else printNat exponent.natAbs) = exponent.natAbs := by
        split
        · next hlt =>
            have hlast := valueOfDigits_lastDigits [] 2 exponent.natAbs
            rw [List.nil_append] at hlast
            have hnil : valueOfDigits 10 [] = 0 := rfl
            rw [hlast, hnil]
            omega
        · exact valueOfDigits_printNat _
      unfold NumberText.scannedExponent
      dsimp only
      rw [Option.getD_some]
      by_cases hneg : exponent < 0
      · rw [decide_eq_true hneg, powerOf, hvalue]
        have habs : exponent = -(exponent.natAbs : ℤ) := by omega
        conv_rhs => rw [habs]
        rw [zpow_neg, zpow_natCast, one_div]
      · rw [decide_eq_false hneg, powerOf, hvalue]
        have habs : exponent = (exponent.natAbs : ℤ) := by omega
        conv_rhs => rw [habs]
        rw [zpow_natCast]

theorem takePlaces_fraction {digits rest : List Char}
    (hdigits : ∀ c ∈ digits, isDigitOf 10 c = true)
    (hrest : ∀ c ∈ rest.head?, c ≠ '.' ∧ isDigitOf 10 c = false) :
    takePlaces (fraction digits ++ rest) = (trimmed digits, rest) := by
  rw [fraction_eq]
  have hall : ∀ c ∈ trimmed digits, isDigitOf 10 c = true :=
    fun c => isDigitOf_of_mem_trimmed hdigits
  by_cases hnil : trimmed digits = []
  · rw [if_pos hnil, hnil, List.nil_append]
    unfold takePlaces
    split
    · exact absurd rfl (hrest '.' (by simp)).1
    · rfl
  · rw [if_neg hnil, List.cons_append, takePlaces]
    cases rest with
    | nil =>
        rw [List.append_nil, List.takeWhile_eq_self_iff.mpr hall,
          List.dropWhile_eq_nil_iff.mpr hall]
    | cons c rest =>
        have hc := (hrest c (by simp)).2
        rw [takeWhile_append_cons rest hc, dropWhile_append_cons rest hc,
          List.takeWhile_eq_self_iff.mpr hall, List.dropWhile_eq_nil_iff.mpr hall, List.nil_append]

/-- **All characters of a number are taken for it.** -/
theorem floatParts_text {number : NumberText} (hnumber : number.Proper) :
    floatParts number.text = ⟨number.negative, number.digits, trimmed number.places,
      NumberText.scannedExponent number.exponent, []⟩ := by
  obtain ⟨first, more, hfirst⟩ := List.exists_cons_of_ne_nil hnumber.ne_nil
  have hdigit := hnumber.digits first (by rw [hfirst]; exact List.mem_cons_self)
  have hsign : takeSign number.text = (number.negative, number.digits ++
      (fraction number.places ++ NumberText.exponentText number.exponent)) := by
    unfold NumberText.text
    rw [hfirst]
    cases number.negative with
    | true => rfl
    | false => exact takeSign_of_digit hdigit _
  have hexponent : ∀ c ∈ (NumberText.exponentText number.exponent).head?,
      c ≠ '.' ∧ isDigitOf 10 c = false := by
    intro c hc
    cases hnone : number.exponent with
    | none =>
        rw [hnone] at hc
        cases hc
    | some exponent =>
        rw [hnone] at hc
        cases hc
        exact ⟨by decide, by decide⟩
  have hstop : ∀ c ∈ (fraction number.places ++
      NumberText.exponentText number.exponent).head?, isDigitOf 10 c = false := by
    intro c hc
    rw [fraction_eq] at hc
    split at hc
    · exact (hexponent c hc).2
    · cases hc
      decide
  have htake : (number.digits ++ (fraction number.places ++
      NumberText.exponentText number.exponent)).takeWhile (isDigitOf 10) = number.digits ∧
      (number.digits ++ (fraction number.places ++
        NumberText.exponentText number.exponent)).dropWhile (isDigitOf 10) =
          fraction number.places ++ NumberText.exponentText number.exponent := by
    cases hrest : fraction number.places ++ NumberText.exponentText number.exponent with
    | nil =>
        rw [List.append_nil]
        exact ⟨List.takeWhile_eq_self_iff.mpr hnumber.digits,
          List.dropWhile_eq_nil_iff.mpr hnumber.digits⟩
    | cons c rest =>
        have hc := hstop c (by rw [hrest]; rfl)
        rw [takeWhile_append_cons rest hc, dropWhile_append_cons rest hc,
          List.takeWhile_eq_self_iff.mpr hnumber.digits,
          List.dropWhile_eq_nil_iff.mpr hnumber.digits, List.nil_append]
        exact ⟨rfl, rfl⟩
  unfold floatParts
  dsimp only
  rw [hsign]
  dsimp only
  rw [htake.1, htake.2, takePlaces_fraction hnumber.places hexponent]
  dsimp only
  rw [if_neg fun h => hnumber.ne_nil (List.append_eq_nil_iff.mp h).1,
    takeExponent_exponentText]

theorem value?_text {number : NumberText} (hnumber : number.Proper) :
    (floatParts number.text).value? = some number.value := by
  have hexponent : ((NumberText.scannedExponent number.exponent).any fun exponent =>
      exponent.2 = []) = false := by
    cases number.exponent with
    | none => rfl
    | some exponent =>
        unfold NumberText.scannedExponent
        dsimp only
        rw [Option.any_some]
        apply decide_eq_false
        split
        · exact fun hnil => absurd (congrArg List.length hnil) (by simp)
        · exact printNat_ne_nil _
  have hne : ¬ number.digits ++ trimmed number.places = [] :=
    fun h => hnumber.ne_nil (List.append_eq_nil_iff.mp h).1
  rw [floatParts_text hnumber]
  unfold FloatParts.value?
  dsimp only
  rw [if_neg hne, hexponent, if_neg Bool.false_ne_true, value_trimmed, powerOf_scannedExponent]
  unfold NumberText.value
  cases number.negative with
  | true => simp
  | false => simp

/-! ## The general form -/

/-- A number as it is rounded to a number of decimal digits. -/
def significant (precision : ℕ) (q : ℚ) : ℚ :=
  (if q < 0 then -1 else 1) * (rint (|q| / 10 ^ (Int.log 10 |q| - (precision - 1))) *
    10 ^ (Int.log 10 |q| - (precision - 1)))

/-- The characters of some digits of a number whose first digit has an exponent. -/
def NumberText.ofDigits (negative : Bool) (digits : List Char) (exponent : ℤ) : NumberText :=
  if exponent < -4 ∨ (digits.length : ℤ) ≤ exponent then
    ⟨negative, digits.take 1, digits.drop 1, some exponent⟩
  else if exponent < 0 then
    ⟨negative, ['0'], List.replicate (-exponent - 1).toNat '0' ++ digits, none⟩
  else ⟨negative, digits.take (exponent.toNat + 1), digits.drop (exponent.toNat + 1), none⟩

section OfDigits

variable {negative : Bool} {digits : List Char} {exponent : ℤ}

theorem text_ofDigits : (NumberText.ofDigits negative digits exponent).text =
    (if negative then ['-'] else []) ++ printDigits digits exponent := by
  unfold NumberText.ofDigits printDigits NumberText.text
  split_ifs <;> simp [NumberText.exponentText]

theorem proper_ofDigits (hne : digits ≠ []) (hdigits : ∀ c ∈ digits, isDigitOf 10 c = true) :
    (NumberText.ofDigits negative digits exponent).Proper := by
  have htake : ∀ count, digits.take (count + 1) ≠ [] := by
    intro count hnil
    rcases List.take_eq_nil_iff.mp hnil with hzero | hnil
    · cases hzero
    · exact hne hnil
  have htaken : ∀ count, ∀ c ∈ digits.take count, isDigitOf 10 c = true :=
    fun count c hmem => hdigits c (List.mem_of_mem_take hmem)
  have hdropped : ∀ count, ∀ c ∈ digits.drop count, isDigitOf 10 c = true :=
    fun count c hmem => hdigits c (List.mem_of_mem_drop hmem)
  unfold NumberText.ofDigits
  split
  · exact ⟨htake 0, htaken 1, hdropped 1⟩
  · split
    · refine ⟨by simp, by simp [isDigitOf, digitValue], fun c hmem => ?_⟩
      rcases List.mem_append.mp hmem with hzero | hmem
      · rw [List.eq_of_mem_replicate hzero]
        decide
      · exact hdigits c hmem
    · exact ⟨htake _, htaken _, hdropped _⟩

theorem valueOfDigits_zeros (count : ℕ) (digits : List Char) :
    valueOfDigits 10 ('0' :: (List.replicate count '0' ++ digits)) = valueOfDigits 10 digits := by
  have hzeros : List.foldl (fun value c => value * 10 + (digitValue c).getD 0) 0
      ('0' :: List.replicate count '0') = 0 := by
    induction count with
    | zero => rfl
    | succ count ih => exact ih
  unfold valueOfDigits
  rw [← List.cons_append, List.foldl_append, hzeros]

/-- The three forms have the same value. -/
theorem value_ofDigits (hne : digits ≠ []) :
    (NumberText.ofDigits negative digits exponent).value =
      (if negative then -1 else 1) *
        (valueOfDigits 10 digits * 10 ^ (exponent - (digits.length - 1))) := by
  have hlength : 0 < digits.length := List.length_pos_iff.mpr hne
  have hten : (10 : ℚ) ≠ 0 := by norm_num
  unfold NumberText.ofDigits NumberText.value
  split
  · dsimp only
    rw [List.take_append_drop, List.length_drop, Option.getD_some, mul_assoc]
    congr 1
    rw [zpow_sub₀ hten, ← zpow_natCast]
    push_cast [Nat.cast_sub hlength]
    ring
  · next hplain =>
      rw [not_or] at hplain
      split
      · next hneg =>
          dsimp only
          have hcount : (((List.replicate (-exponent - 1).toNat '0' ++ digits).length : ℕ) : ℤ) =
              -(exponent - (digits.length - 1)) := by
            rw [List.length_append, List.length_replicate]
            omega
          rw [List.singleton_append, valueOfDigits_zeros, Option.getD_none, zpow_zero, mul_one,
            ← zpow_natCast, hcount, zpow_neg, div_inv_eq_mul]
      · next hnonneg =>
          dsimp only
          have hcount : (((digits.drop (exponent.toNat + 1)).length : ℕ) : ℤ) =
              -(exponent - (digits.length - 1)) := by
            rw [List.length_drop]
            omega
          rw [List.take_append_drop, Option.getD_none, zpow_zero, mul_one, ← zpow_natCast, hcount,
            zpow_neg, div_inv_eq_mul]

end OfDigits

/-- The digits of an integer have a value. -/
theorem exists_ofDigits {precision n : ℕ} (hprecision : 0 < precision) (hn : n < 10 ^ precision)
    (negative : Bool) (exponent : ℤ) :
    ∃ number : NumberText, number.Proper ∧
      number.text = (if negative then ['-'] else []) ++
        printDigits (lastDigits precision n) exponent ∧
      number.value =
        (if negative then -1 else 1) * ((n : ℚ) * 10 ^ (exponent - (precision - 1))) := by
  have hne : lastDigits precision n ≠ [] := by
    intro hnil
    have hlength := length_lastDigits precision n
    rw [hnil] at hlength
    exact hprecision.ne hlength
  have hvalue : valueOfDigits 10 (lastDigits precision n) = n := by
    have hlast := valueOfDigits_lastDigits [] precision n
    have hnil : valueOfDigits 10 [] = 0 := rfl
    rw [List.nil_append, hnil, Nat.zero_mul, Nat.zero_add] at hlast
    exact hlast.trans (Nat.mod_eq_of_lt hn)
  refine ⟨NumberText.ofDigits negative (lastDigits precision n) exponent,
    proper_ofDigits hne fun c hmem => isDigitOf_of_mem_lastDigits hmem, text_ofDigits, ?_⟩
  rw [value_ofDigits hne, hvalue, length_lastDigits]

/-- Rounding to some digits carries into one more digit at most. -/
theorem rint_digits_le (precision : ℕ) {q : ℚ} :
    rint (|q| / 10 ^ (Int.log 10 |q| - ((precision : ℤ) - 1))) ≤ 10 ^ precision := by
  have hpos : (0 : ℚ) < 10 ^ (Int.log 10 |q| - ((precision : ℤ) - 1)) := zpow_pos (by norm_num) _
  have hlog := Int.lt_zpow_succ_log_self (b := 10) (by decide) |q|
  have hpow : (((10 : ℤ) ^ precision : ℤ) : ℚ) * 10 ^ (Int.log 10 |q| - ((precision : ℤ) - 1)) =
      ((10 : ℕ) : ℚ) ^ (Int.log 10 |q| + 1) := by
    push_cast
    rw [← zpow_natCast, ← zpow_add₀ (by norm_num)]
    congr 1
    ring
  apply rint_le
  rw [div_le_iff₀ hpos, hpow]
  exact hlog.le

/-- A number has some characters, with the value of its digits. -/
theorem exists_numberText {precision : ℕ} (hprecision : 0 < precision) (q : ℚ) :
    ∃ number : NumberText, number.Proper ∧ number.text = printGeneral precision q ∧
      number.value = significant precision q := by
  by_cases hzero : q = 0
  · subst hzero
    have hrint : rint 0 = 0 := by decide +kernel
    refine ⟨⟨false, ['0'], [], none⟩,
      ⟨by simp, List.forall_mem_singleton.mpr (by decide), by simp⟩, rfl, ?_⟩
    have hvalue : valueOfDigits 10 ['0'] = 0 := rfl
    simp [NumberText.value, significant, hrint, hvalue]
  · obtain ⟨rounded, hrounded⟩ : ∃ rounded, rounded =
      (rint (|q| / 10 ^ (Int.log 10 |q| - ((precision : ℤ) - 1)))).toNat := ⟨_, rfl⟩
    have hcast : rint (|q| / 10 ^ (Int.log 10 |q| - ((precision : ℤ) - 1))) = (rounded : ℤ) := by
      have hnonneg : 0 ≤ rint (|q| / 10 ^ (Int.log 10 |q| - ((precision : ℤ) - 1))) :=
        le_rint (by
          rw [Int.cast_zero]
          exact div_nonneg (abs_nonneg q) (zpow_pos (by norm_num) _).le)
      omega
    have hle := rint_digits_le precision (q := q)
    rw [hcast] at hle
    have hsignificant : significant precision q = (if q < 0 then -1 else 1) *
        ((rounded : ℚ) * 10 ^ (Int.log 10 |q| - ((precision : ℤ) - 1))) := by
      unfold significant
      rw [hcast, Int.cast_natCast]
    unfold printGeneral
    rw [if_neg hzero, hsignificant]
    dsimp only
    rw [← hrounded]
    by_cases hcarry : rounded = 10 ^ precision
    · obtain ⟨number, hproper, htext, hvalue⟩ := exists_ofDigits hprecision
        (Nat.pow_lt_pow_right (by decide) (Nat.sub_lt hprecision Nat.one_pos))
        (decide (q < 0)) (Int.log 10 |q| + 1)
      refine ⟨number, hproper, ?_, ?_⟩
      · rw [htext, if_pos hcarry]
        simp
      · rw [hvalue, hcarry]
        simp only [decide_eq_true_eq]
        congr 1
        push_cast
        rw [← zpow_natCast, ← zpow_natCast, ← zpow_add₀ (by norm_num), ← zpow_add₀ (by norm_num)]
        congr 1
        omega
    · obtain ⟨number, hproper, htext, hvalue⟩ := exists_ofDigits hprecision
        (Nat.lt_of_le_of_ne (by exact_mod_cast hle) hcarry) (decide (q < 0)) (Int.log 10 |q|)
      refine ⟨number, hproper, ?_, ?_⟩
      · rw [htext, if_neg hcarry]
        simp
      · rw [hvalue]
        simp only [decide_eq_true_eq]

/-- What is read of a number of the general form. -/
def readSignificant (precision : ℕ) (q : ℚ) : ℚ := roundFloat (significant precision q)

/-- **A number of the general form is read back** with its digits. -/
theorem scanFloat_printGeneral {precision : ℕ} (hprecision : 0 < precision) {q : ℚ}
    (hrange : |readSignificant precision q| < 2 ^ 128) :
    scanFloat (printGeneral precision q) = ⟨readSignificant precision q, [], false⟩ := by
  obtain ⟨number, hproper, htext, hvalue⟩ := exists_numberText hprecision q
  obtain ⟨hlow, hhigh⟩ := abs_lt.mp hrange
  have hrest : (floatParts number.text).rest = [] := by rw [floatParts_text hproper]
  unfold scanFloat
  rw [← htext, value?_text hproper, hrest, hvalue]
  dsimp only
  unfold readSignificant at hlow hhigh ⊢
  rw [if_neg (not_le.mpr hhigh), if_neg (not_le.mpr hlow)]

/-! ## Numbers in a text -/

namespace TextStream

variable {precision : ℕ} {q : ℚ} {c : Char}

theorem printGeneral_eq_cons (hprecision : 0 < precision) (q : ℚ) :
    ∃ first more, printGeneral precision q = first :: more ∧ isSpace first = false := by
  obtain ⟨number, hproper, htext, -⟩ := exists_numberText hprecision q
  have hne : printGeneral precision q ≠ [] := by
    rw [← htext]
    unfold NumberText.text
    intro hnil
    exact hproper.ne_nil (List.append_eq_nil_iff.mp (List.append_eq_nil_iff.mp hnil).2).1
  obtain ⟨first, more, hfirst⟩ := List.exists_cons_of_ne_nil hne
  refine ⟨first, more, hfirst, ?_⟩
  have hin : InNumber first :=
    @inNumber_of_mem_printGeneral precision q first (by simp [hfirst])
  cases hspace : isSpace first with
  | false => rfl
  | true =>
      have hends := endsNumber_of_isSpace hspace
      rcases hin with hdigit | hmem
      · rw [hends.digit] at hdigit
        cases hdigit
      · refine absurd ?_ hends.other
        simp only [List.mem_cons, List.not_mem_nil, or_false] at hmem ⊢
        tauto

/-- A number of the general form. -/
theorem readFloat_printGeneral (hprecision : 0 < precision)
    (hrange : |readSignificant precision q| < 2 ^ 128) (hc : EndsNumber c) (rest : List Char) :
    (ofText (printGeneral precision q ++ c :: rest)).readFloat =
      (readSignificant precision q, ofText (c :: rest)) := by
  have hscan : scanFloat (printGeneral precision q ++ c :: rest) =
      ⟨readSignificant precision q, c :: rest, false⟩ := by
    rw [scanFloat_append hc, scanFloat_printGeneral hprecision hrange]
    rfl
  obtain ⟨first, more, hfirst, hspace⟩ := printGeneral_eq_cons hprecision q
  unfold readFloat
  rw [hfirst, List.cons_append] at hscan ⊢
  rw [extract_of_cons hspace, hscan]
  rfl

theorem readFloats_of_blanks {gap : List Char} (hgap : ∀ c ∈ gap, isSpace c = true) (fuel : ℕ)
    (text : List Char) :
    readFloats (fuel + 1) (ofText (gap ++ text)) = readFloats (fuel + 1) (ofText text) := by
  induction gap with
  | nil => rfl
  | cons b gap ih =>
      obtain ⟨hb, hgap⟩ := List.forall_mem_cons.mp hgap
      rw [← ih hgap, readFloats, readFloats, List.cons_append, readFloat_of_blank hb]

/-- **All numbers are read**, up to a character that cannot be in one. -/
theorem readFloats_printGeneral (hprecision : 0 < precision) {numbers : List ℚ}
    (hrange : ∀ q ∈ numbers, |readSignificant precision q| < 2 ^ 128) {gap : List Char}
    (hgap : ∀ c ∈ gap, isSpace c = true) (hspace : isSpace c = false) (hc : EndsNumber c)
    {fuel : ℕ} (hfuel : numbers.length < fuel) (rest : List Char) :
    readFloats fuel (ofText ((numbers.flatMap fun q => printGeneral precision q ++ [' ']) ++
        (gap ++ c :: rest))) =
      (numbers.map (readSignificant precision), ⟨c :: rest, false, true⟩) := by
  induction numbers generalizing fuel with
  | nil =>
      obtain ⟨fuel, rfl⟩ := Nat.exists_eq_succ_of_ne_zero hfuel.ne'
      rw [List.flatMap_nil, List.nil_append, readFloats_of_blanks hgap, readFloats,
        readFloat_of_endsNumber hspace hc]
      rfl
  | cons q numbers ih =>
      obtain ⟨fuel, rfl⟩ : ∃ more, fuel = more + 2 := by
        rw [List.length_cons] at hfuel
        exact ⟨fuel - 2, by omega⟩
      obtain ⟨hfirst, hrange⟩ := List.forall_mem_cons.mp hrange
      obtain ⟨more, hmore⟩ : ∃ more, more =
        (numbers.flatMap fun q => printGeneral precision q ++ [' ']) ++ (gap ++ c :: rest) :=
          ⟨_, rfl⟩
      have htext : ((q :: numbers).flatMap fun q => printGeneral precision q ++ [' ']) ++
          (gap ++ c :: rest) = printGeneral precision q ++ ' ' :: more := by
        rw [hmore, List.flatMap_cons]
        simp only [List.append_assoc]
        rfl
      have hrest := @readFloats_of_blanks [' '] (List.forall_mem_singleton.mpr rfl) fuel more
      rw [List.singleton_append] at hrest
      rw [htext, readFloats, readFloat_printGeneral hprecision hfirst (endsNumber_of_isSpace rfl)]
      dsimp only
      rw [if_neg (by exact Bool.false_ne_true), hrest, hmore,
        ih hrange (by rw [List.length_cons] at hfuel; omega)]
      rfl

end TextStream

end Nidas.Lib
