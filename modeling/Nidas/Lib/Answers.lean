import Mathlib.Data.List.Induction
import Mathlib.Logic.Basic

/-!
# Two machines that give the same answers

A machine is called again and again and answers each call.  A machine with a cache, a table or
another shortcut is compared with one without: a relation between their states that every call
keeps, with the same answer on both sides, makes all the answers of a run the same.  The calls may
have to meet a condition, which can look at both states.

For one machine, a condition on each call that decides whether its answer is right decides it for
the run too.  What is said about a call can also look at all the calls before it.
-/

namespace Nidas.Lib

variable {σ τ α β : Type*}

/-- What a machine answers to the calls, one after the other. -/
def answers (respond : σ → α → σ × β) : σ → List α → List β
  | _, [] => []
  | state, call :: calls => (respond state call).2 :: answers respond (respond state call).1 calls

/-- The state that the calls lead to. -/
def afterCalls (respond : σ → α → σ × β) : σ → List α → σ
  | state, [] => state
  | state, call :: calls => afterCalls respond (respond state call).1 calls

theorem afterCalls_append (respond : σ → α → σ × β) (state : σ) (first rest : List α) :
    afterCalls respond state (first ++ rest) =
      afterCalls respond (afterCalls respond state first) rest := by
  induction first generalizing state with
  | nil => rfl
  | cons call first ih => exact ih _

theorem answers_append (respond : σ → α → σ × β) (state : σ) (first rest : List α) :
    answers respond state (first ++ rest) =
      answers respond state first ++ answers respond (afterCalls respond state first) rest := by
  induction first generalizing state with
  | nil => rfl
  | cons call first ih =>
      rw [List.cons_append, answers, answers, ih, List.cons_append, afterCalls]

/-- An answer is that to a call, in the state that the calls before it lead to. -/
theorem exists_of_mem_answers {respond : σ → α → σ × β} {state : σ} {calls : List α} {answer : β}
    (hmem : answer ∈ answers respond state calls) :
    ∃ before call rest, calls = before ++ call :: rest ∧
      answer = (respond (afterCalls respond state before) call).2 := by
  induction calls generalizing state with
  | nil => cases hmem
  | cons call calls ih =>
      rw [answers] at hmem
      rcases List.mem_cons.mp hmem with hnow | hlater
      · exact ⟨[], call, calls, rfl, hnow⟩
      · obtain ⟨before, other, rest, rfl, hanswer⟩ := ih hlater
        exact ⟨call :: before, other, rest, rfl, hanswer⟩

/-- Every call meets a condition in the states that the two machines are in when it is made. -/
def AllAllowed (allowed : σ → τ → α → Prop) (respond : σ → α → σ × β) (respond' : τ → α → τ × β) :
    σ → τ → List α → Prop
  | _, _, [] => True
  | state, state', call :: calls =>
      allowed state state' call ∧
        AllAllowed allowed respond respond' (respond state call).1 (respond' state' call).1 calls

/-- **The rule of simulations.** -/
theorem answers_eq_of_simulation {allowed : σ → τ → α → Prop} {respond : σ → α → σ × β}
    {respond' : τ → α → τ × β} {Related : σ → τ → Prop}
    (hstep : ∀ state state' call, Related state state' → allowed state state' call →
      Related (respond state call).1 (respond' state' call).1 ∧
        (respond state call).2 = (respond' state' call).2)
    {state : σ} {state' : τ} (hrelated : Related state state') (calls : List α)
    (hallowed : AllAllowed allowed respond respond' state state' calls) :
    answers respond state calls = answers respond' state' calls := by
  induction calls generalizing state state' with
  | nil => rfl
  | cons call calls ih =>
      obtain ⟨hcall, hcalls⟩ := hallowed
      obtain ⟨hnext, hanswer⟩ := hstep state state' call hrelated hcall
      rw [answers, answers, hanswer, ih hnext hcalls]

/-! ## One machine -/

/-- Every call meets a condition in the state that the machine is in when it is made. -/
def Along (allowed : σ → α → Prop) (respond : σ → α → σ × β) : σ → List α → Prop
  | _, [] => True
  | state, call :: calls => allowed state call ∧ Along allowed respond (respond state call).1 calls

/-- **The answers of a run are right exactly if every call meets the condition for it.** -/
theorem answers_eq_map_iff {given allowed : σ → α → Prop} {respond : σ → α → σ × β}
    {right : α → β}
    (hstep : ∀ state call, given state call →
      ((respond state call).2 = right call ↔ allowed state call))
    {state : σ} {calls : List α} (hgiven : Along given respond state calls) :
    answers respond state calls = calls.map right ↔ Along allowed respond state calls := by
  induction calls generalizing state with
  | nil => simp [answers, Along]
  | cons call calls ih =>
      obtain ⟨hcall, hcalls⟩ := hgiven
      rw [answers, List.map_cons, List.cons.injEq, hstep state call hcall, ih hcalls, Along]

/-! ## The calls before a call -/

/-- What holds of every call of a run and the calls before it. -/
def AtEvery (holds : List α → α → Prop) (calls : List α) : Prop :=
  ∀ before call, before ++ [call] <+: calls → holds before call

theorem afterCalls_concat (respond : σ → α → σ × β) (state : σ) (before : List α) (call : α) :
    afterCalls respond state (before ++ [call]) =
      (respond (afterCalls respond state before) call).1 := by
  rw [afterCalls_append]
  rfl

/-- With lists as answers, the last one is added at the end. -/
theorem flatten_answers_concat (respond : σ → α → σ × List β) (state : σ) (before : List α)
    (call : α) :
    (answers respond state (before ++ [call])).flatten =
      (answers respond state before).flatten ++
        (respond (afterCalls respond state before) call).2 := by
  rw [answers_append, List.flatten_append]
  congr 1
  exact List.append_nil _

theorem atEvery_concat {holds : List α → α → Prop} {calls : List α} {call : α} :
    AtEvery holds (calls ++ [call]) ↔ AtEvery holds calls ∧ holds calls call := by
  constructor
  · intro hall
    refine ⟨fun before other hbefore => ?_, hall calls call (List.prefix_refl _)⟩
    exact hall before other (hbefore.trans (List.prefix_append _ _))
  · rintro ⟨hcalls, hcall⟩ before other hbefore
    rw [List.prefix_concat_iff] at hbefore
    rcases hbefore with hsame | hbefore
    · obtain ⟨rfl, hother⟩ := List.append_inj' hsame rfl
      cases hother
      exact hcall
    · exact hcalls before other hbefore

theorem atEvery_iff_getElem {holds : List α → α → Prop} {calls : List α} :
    AtEvery holds calls ↔ ∀ i : Fin calls.length, holds (calls.take i) (calls.get i) := by
  constructor
  · intro hall i
    apply hall
    rw [List.get_eq_getElem, List.take_append_getElem]
    exact List.take_prefix _ _
  · rintro hall before call ⟨rest, rfl⟩
    have hlength : before.length < (before ++ [call] ++ rest).length := by simp
    have hat := hall ⟨before.length, hlength⟩
    simpa using hat

instance {holds : List α → α → Prop} [∀ before call, Decidable (holds before call)]
    (calls : List α) : Decidable (AtEvery holds calls) :=
  decidable_of_iff _ atEvery_iff_getElem.symm

/-- An invariant of the calls that were made is kept up to every call. -/
theorem AtEvery.invariant {allowed : List α → α → Prop} (Inv : List α → Prop) (hnil : Inv [])
    (hstep : ∀ before call, Inv before → allowed before call → Inv (before ++ [call]))
    {calls : List α} (hallowed : AtEvery allowed calls) {before : List α}
    (hbefore : before <+: calls) : Inv before := by
  induction before using List.reverseRecOn with
  | nil => exact hnil
  | append_singleton before call ih =>
      have hearlier : before <+: calls := (List.prefix_append before [call]).trans hbefore
      exact hstep before call (ih hearlier) (hallowed before call hbefore)

end Nidas.Lib
