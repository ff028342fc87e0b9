import Mathlib.Data.Option.Basic
import Mathlib.Order.Basic

/-!
# Loops without a bound

The body of a loop either goes on with a new state or leaves the loop with a result.  `runLoop` runs
it for a number of rounds, and `Ends` says that it leaves the loop at all.  A loop ends if some
measure goes down in each round (`ends_of_measure`), and it does not if its body never leaves
a set of states from which it goes on (`not_ends_of_closed`).
-/

namespace Nidas.Lib

variable {σ β : Type*}

/-- A number of rounds; without a value if the loop has not been left by then. -/
def runLoop (body : σ → σ ⊕ β) : ℕ → σ → Option β
  | 0, _ => none
  | fuel + 1, state =>
      match body state with
      | .inl next => runLoop body fuel next
      | .inr result => some result

/-- The loop is left with a result. -/
def Ends (body : σ → σ ⊕ β) (state : σ) (result : β) : Prop :=
  ∃ fuel, runLoop body fuel state = some result

variable {body : σ → σ ⊕ β} {state next : σ} {result other : β}

theorem runLoop_succ_of_inl (hbody : body state = .inl next) (fuel : ℕ) :
    runLoop body (fuel + 1) state = runLoop body fuel next := by
  rw [runLoop, hbody]

theorem Ends.leave (hbody : body state = .inr result) : Ends body state result :=
  ⟨1, by rw [runLoop, hbody]⟩

theorem Ends.goOn (hbody : body state = .inl next) (hends : Ends body next result) :
    Ends body state result := by
  obtain ⟨fuel, hfuel⟩ := hends
  exact ⟨fuel + 1, by rw [runLoop_succ_of_inl hbody, hfuel]⟩

/-- The state matters only through what the body does with it. -/
theorem Ends.congr (hbody : body state = body next) (hends : Ends body next result) :
    Ends body state result := by
  obtain ⟨fuel, hfuel⟩ := hends
  refine ⟨fuel, ?_⟩
  cases fuel with
  | zero => exact hfuel
  | succ fuel =>
      rw [runLoop] at hfuel ⊢
      rw [hbody]
      exact hfuel

theorem Ends.tail (hends : Ends body state result) (hbody : body state = .inl next) :
    Ends body next result := by
  obtain ⟨fuel, hfuel⟩ := hends
  cases fuel with
  | zero => cases hfuel
  | succ fuel => exact ⟨fuel, (runLoop_succ_of_inl hbody fuel).symm.trans hfuel⟩

/-- A loop has at most one result. -/
theorem Ends.unique (hends : Ends body state result) (hother : Ends body state other) :
    result = other := by
  obtain ⟨fuel, hfuel⟩ := hends
  induction fuel generalizing state with
  | zero => cases hfuel
  | succ fuel ih =>
      rw [runLoop] at hfuel
      split at hfuel
      · next next hbody => exact ih (hother.tail hbody) hfuel
      · next out hbody =>
          obtain ⟨fuel', hfuel'⟩ := hother
          cases fuel' with
          | zero => cases hfuel'
          | succ fuel' =>
              rw [runLoop, hbody] at hfuel'
              exact Option.some.inj (hfuel.symm.trans hfuel')

/-- **The rule of termination**: a measure that goes down in each round, under an invariant. -/
theorem ends_of_measure {Inv : σ → Prop} (measure : σ → ℕ)
    (hdown : ∀ state next, Inv state → body state = .inl next →
      Inv next ∧ measure next < measure state) (state : σ) (hinv : Inv state) :
    ∃ result, Ends body state result := by
  obtain ⟨bound, hbound⟩ : ∃ bound, measure state ≤ bound := ⟨_, Nat.le_refl _⟩
  induction bound generalizing state with
  | zero =>
      cases hbody : body state with
      | inl next =>
          have hlt := (hdown state next hinv hbody).2
          exact absurd (Nat.lt_of_lt_of_le hlt hbound) (Nat.not_lt_zero _)
      | inr result => exact ⟨result, .leave hbody⟩
  | succ bound ih =>
      cases hbody : body state with
      | inl next =>
          obtain ⟨hnext, hlt⟩ := hdown state next hinv hbody
          have hnextBound := Nat.lt_succ_iff.mp (Nat.lt_of_lt_of_le hlt hbound)
          obtain ⟨result, hends⟩ := ih next hnext hnextBound
          exact ⟨result, hends.goOn hbody⟩
      | inr result => exact ⟨result, .leave hbody⟩

/-- The rule of invariants for what is left behind. -/
theorem Ends.invariant {Inv : σ → Prop} {Post : β → Prop} (hends : Ends body state result)
    (hinv : Inv state) (hkeep : ∀ state next, Inv state → body state = .inl next → Inv next)
    (hleave : ∀ state result, Inv state → body state = .inr result → Post result) :
    Post result := by
  obtain ⟨fuel, hfuel⟩ := hends
  induction fuel generalizing state with
  | zero => cases hfuel
  | succ fuel ih =>
      rw [runLoop] at hfuel
      split at hfuel
      · next next hbody => exact ih (hkeep state next hinv hbody) hfuel
      · next out hbody =>
          cases hfuel
          exact hleave state result hinv hbody

/-- **The rule of divergence**: states from which the loop always goes on. -/
theorem not_ends_of_closed {Inv : σ → Prop}
    (hclosed : ∀ state, Inv state → ∃ next, body state = .inl next ∧ Inv next)
    (hinv : Inv state) (result : β) : ¬Ends body state result := by
  rintro ⟨fuel, hfuel⟩
  induction fuel generalizing state with
  | zero => cases hfuel
  | succ fuel ih =>
      obtain ⟨next, hbody, hnext⟩ := hclosed state hinv
      exact ih hnext ((runLoop_succ_of_inl hbody fuel).symm.trans hfuel)

end Nidas.Lib
