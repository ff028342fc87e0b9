import Mathlib.Data.List.Infix

/-!
# Fields of a record that may be cut off

A record is a sequence of fields of fixed sizes.  Who reads it goes on to the next field as long as
it is there as a whole, and stops in front of the first one that is cut off.
-/

namespace Nidas.Lib

variable {α : Type*}

/-- What is left behind the fields that are there. -/
def skipFields : List ℕ → List α → List α
  | [], symbols => symbols
  | size :: sizes, symbols =>
      if symbols.length < size then symbols else skipFields sizes (symbols.drop size)

variable {sizes : List ℕ} {size : ℕ} {symbols : List α}

@[simp] theorem skipFields_nil : skipFields [] symbols = symbols := rfl

theorem skipFields_of_lt (hlt : symbols.length < size) :
    skipFields (size :: sizes) symbols = symbols :=
  if_pos hlt

theorem skipFields_of_le (hle : size ≤ symbols.length) :
    skipFields (size :: sizes) symbols = skipFields sizes (symbols.drop size) :=
  if_neg (Nat.not_lt.mpr hle)

theorem skipFields_suffix : ∀ (sizes : List ℕ) (symbols : List α),
    skipFields sizes symbols <:+ symbols := by
  intro sizes
  induction sizes with
  | nil => intro symbols; exact List.suffix_refl symbols
  | cons size sizes ih =>
      intro symbols
      rcases Nat.lt_or_ge symbols.length size with hlt | hle
      · rw [skipFields_of_lt hlt]
      · rw [skipFields_of_le hle]
        exact (ih _).trans (List.drop_suffix size symbols)

theorem length_skipFields_le (sizes : List ℕ) (symbols : List α) :
    (skipFields sizes symbols).length ≤ symbols.length :=
  (skipFields_suffix sizes symbols).length_le

/-- In front of a field that is cut off one stays. -/
theorem skipFields_replicate_of_lt (hlt : symbols.length < size) (count : ℕ) :
    skipFields (List.replicate count size) symbols = symbols := by
  cases count with
  | zero => rfl
  | succ count => exact skipFields_of_lt hlt

/-- Fields of one size, in two parts. -/
theorem skipFields_replicate_add (first second : ℕ) (symbols : List α) :
    skipFields (List.replicate second size) (skipFields (List.replicate first size) symbols) =
      skipFields (List.replicate (first + second) size) symbols := by
  induction first generalizing symbols with
  | zero => rw [Nat.zero_add]; rfl
  | succ first ih =>
      rw [Nat.succ_add, List.replicate_succ, List.replicate_succ]
      rcases Nat.lt_or_ge symbols.length size with hlt | hle
      · rw [skipFields_of_lt hlt, skipFields_of_lt hlt, skipFields_replicate_of_lt hlt]
      · rw [skipFields_of_le hle, skipFields_of_le hle, ih]

end Nidas.Lib
