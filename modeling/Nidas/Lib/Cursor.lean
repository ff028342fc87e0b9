import Mathlib.Data.List.Infix

/-!
# Reading from a sequence of blocks

A reader that gets its symbols in blocks holds what is left of the current block
(`front`) and has more blocks to come.  `advance` uses up a number of symbols and
opens no block before it has to, so what it leaves also tells whether the current
block is used up.
-/

namespace Nidas.Lib

variable {α γ : Type*} (symbols : γ → List α)

/-- All symbols that are still to be read. -/
def unread (front : List α) (blocks : List γ) : List α :=
  front ++ blocks.flatMap symbols

/-- Use up `need` symbols, opening as few blocks as possible. -/
def advance : ℕ → List α → List γ → List α × List γ
  | need, front, [] => (front.drop need, [])
  | need, front, block :: blocks =>
      if need ≤ front.length then (front.drop need, block :: blocks)
      else advance (need - front.length) (symbols block) blocks

variable {symbols}

theorem advance_of_le {need : ℕ} {front : List α} {blocks : List γ}
    (hle : need ≤ front.length) : advance symbols need front blocks = (front.drop need, blocks) := by
  cases blocks with
  | nil => rfl
  | cons block blocks => exact if_pos hle

theorem advance_of_lt {need : ℕ} {front : List α} {block : γ} {blocks : List γ}
    (hlt : front.length < need) :
    advance symbols need front (block :: blocks) =
      advance symbols (need - front.length) (symbols block) blocks :=
  if_neg (Nat.not_le.mpr hlt)

@[simp] theorem advance_zero (front : List α) (blocks : List γ) :
    advance symbols 0 front blocks = (front, blocks) := by
  rw [advance_of_le (Nat.zero_le _), List.drop_zero]

/-- Advancing drops symbols from what is unread. -/
theorem unread_advance :
    ∀ (blocks : List γ) (need : ℕ) (front : List α),
      unread symbols (advance symbols need front blocks).1 (advance symbols need front blocks).2 =
        (unread symbols front blocks).drop need := by
  intro blocks
  induction blocks with
  | nil => intro need front; simp [advance, unread]
  | cons block blocks ih =>
      intro need front
      rcases Nat.lt_or_ge front.length need with hlt | hle
      · have hdrop : (unread symbols front (block :: blocks)).drop need =
            (unread symbols (symbols block) blocks).drop (need - front.length) := by
          rw [unread, List.drop_append, List.drop_of_length_le (Nat.le_of_lt hlt)]
          rfl
        rw [advance_of_lt hlt, ih, hdrop]
      · rw [advance_of_le hle, unread, unread, List.drop_append_of_le_length hle]

/-- Advancing in two steps. -/
theorem advance_advance :
    ∀ (blocks : List γ) (first second : ℕ) (front : List α),
      advance symbols second (advance symbols first front blocks).1
          (advance symbols first front blocks).2 =
        advance symbols (first + second) front blocks := by
  intro blocks
  induction blocks with
  | nil => intro first second front; simp [advance]
  | cons block blocks ih =>
      intro first second front
      rcases Nat.lt_or_ge front.length first with hlt | hle
      · rw [advance_of_lt hlt, ih, advance_of_lt (by omega)]
        congr 1
        omega
      · rw [advance_of_le hle]
        dsimp only
        have hlength : (front.drop first).length = front.length - first := List.length_drop
        rcases Nat.lt_or_ge front.length (first + second) with hmore | hless
        · rw [advance_of_lt (by omega), advance_of_lt hmore, hlength]
          congr 1
          omega
        · rw [advance_of_le (by omega), advance_of_le hless, List.drop_drop]

/-- Blocks are opened from the front. -/
theorem advance_suffix :
    ∀ (blocks : List γ) (need : ℕ) (front : List α), (advance symbols need front blocks).2 <:+ blocks := by
  intro blocks
  induction blocks with
  | nil => intro need front; exact List.suffix_refl _
  | cons block blocks ih =>
      intro need front
      rcases Nat.lt_or_ge front.length need with hlt | hle
      · rw [advance_of_lt hlt]
        exact (ih _ _).trans (List.suffix_cons _ _)
      · rw [advance_of_le hle]

/-- Symbols that are in the first blocks are found there; the blocks behind them
are not touched. -/
theorem advance_append :
    ∀ (pre post : List γ) (need : ℕ) (front : List α),
      need ≤ (unread symbols front pre).length →
      advance symbols need front (pre ++ post) =
        ((advance symbols need front pre).1, (advance symbols need front pre).2 ++ post) := by
  intro pre
  induction pre with
  | nil =>
      intro post need front hle
      rw [unread, List.flatMap_nil, List.append_nil] at hle
      rw [List.nil_append, advance_of_le hle, advance_of_le hle]
      rfl
  | cons block rest ih =>
      intro post need front hle
      rcases Nat.lt_or_ge front.length need with hlt | hge
      · have hsplit : unread symbols front (block :: rest) =
            front ++ unread symbols (symbols block) rest := by
          rw [unread, unread, List.flatMap_cons]
        rw [hsplit, List.length_append] at hle
        rw [List.cons_append, advance_of_lt hlt, advance_of_lt hlt]
        exact ih post (need - front.length) (symbols block) (by omega)
      · rw [advance_of_le hge, advance_of_le hge]

end Nidas.Lib
