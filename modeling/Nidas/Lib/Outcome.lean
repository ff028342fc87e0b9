import Mathlib.Tactic.TypeStar

/-!
# Outcomes of computations that may fail

`Outcome P Q x` states what is known of a result: `P` of its value, or `Q` of its error.  It is a
total statement: with a `Q` that never holds the computation does not fail.
-/

namespace Nidas.Lib

variable {ε β : Type*} {P P' : β → Prop} {Q Q' : ε → Prop}

/-- The value meets `P`, or the error meets `Q`. -/
def Outcome (P : β → Prop) (Q : ε → Prop) : Except ε β → Prop
  | .ok value => P value
  | .error error => Q error

namespace Outcome

@[simp] theorem ok_iff {value : β} : Outcome P Q (.ok value) ↔ P value := Iff.rfl

@[simp] theorem error_iff {error : ε} : Outcome P Q (.error error) ↔ Q error := Iff.rfl

theorem mono {x : Except ε β} (hx : Outcome P Q x) (hP : ∀ value, P value → P' value)
    (hQ : ∀ error, Q error → Q' error) : Outcome P' Q' x := by
  cases x with
  | ok value => exact hP value hx
  | error error => exact hQ error hx

/-- The two ways in which a computation ends. -/
theorem cases {x : Except ε β} (hx : Outcome P Q x) :
    (∃ value, x = .ok value ∧ P value) ∨ ∃ error, x = .error error ∧ Q error := by
  cases x with
  | ok value => exact .inl ⟨value, rfl, hx⟩
  | error error => exact .inr ⟨error, rfl, hx⟩

/-- A computation that cannot fail has a value. -/
theorem exists_ok {x : Except ε β} (hx : Outcome P (fun _ => False) x) :
    ∃ value, x = .ok value ∧ P value := by
  cases x with
  | ok value => exact ⟨value, rfl, hx⟩
  | error error => exact hx.elim

theorem of_ok {x : Except ε β} (hx : Outcome P Q x) {value : β} (hvalue : x = .ok value) :
    P value := by
  rw [hvalue] at hx
  exact hx

theorem of_error {x : Except ε β} (hx : Outcome P Q x) {error : ε} (herror : x = .error error) :
    Q error := by
  rw [herror] at hx
  exact hx

/-- A computation goes on with the value of another one. -/
theorem bind {β γ : Type*} {P : β → Prop} {R : γ → Prop} {x : Except ε β} {f : β → Except ε γ}
    (hx : Outcome P Q x) (hf : ∀ value, P value → Outcome R Q (f value)) :
    Outcome R Q (x.bind f) := by
  cases x with
  | ok value => exact hf value hx
  | error error => exact hx

end Outcome

end Nidas.Lib
