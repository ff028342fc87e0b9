import Mathlib.Algebra.BigOperators.Group.List.Basic
import Mathlib.Algebra.GroupWithZero.Nat
import Mathlib.Data.List.Range

/-!
# Counted loops and arrays

`forRange` is a loop over an interval of indices whose body may fail.  Its rule
(`forRange_eq_foldlM`) makes one list of the steps of a nest of loops.  Loops of this kind go
through an array from its first cell on: `modifiedBy` is the array when some of its cells have been
modified.  An array may hold rows of different lengths one behind the other
(`flatRows`); `getElem?_flatRows` finds a cell in it.
-/

namespace Nidas.Lib

variable {σ α : Type*} {m : Type _ → Type _} [Monad m]

/-! ## Loops -/

/-- `for (i = lo; i < hi; i++)` -/
def forRange (lo hi : ℕ) (body : ℕ → σ → m σ) (state : σ) : m σ :=
  (List.range' lo (hi - lo)).foldlM (fun state i => body i state) state

/-- **The rule of counted loops**: a loop whose body does some steps does those of all indices. -/
theorem forRange_eq_foldlM [LawfulMonad m] {β : Type*} {lo hi : ℕ} {body : ℕ → σ → m σ}
    (step : σ → β → m σ) (steps : ℕ → List β)
    (hbody : ∀ i state, lo ≤ i → i < hi → body i state = (steps i).foldlM step state)
    (state : σ) :
    forRange lo hi body state =
      ((List.range' lo (hi - lo)).flatMap steps).foldlM step state := by
  have hrest : ∀ (count start : ℕ) (state : σ), lo ≤ start → start + count ≤ hi →
      (List.range' start count).foldlM (fun state i => body i state) state =
        ((List.range' start count).flatMap steps).foldlM step state := by
    intro count
    induction count with
    | zero => intro start state _ _; rfl
    | succ count ih =>
        intro start state hlo hhi
        rw [List.range'_succ, List.foldlM_cons, List.flatMap_cons, List.foldlM_append,
          hbody start state hlo (by omega)]
        congr 1
        funext next
        exact ih (start + 1) next (by omega) (by omega)
  unfold forRange
  rcases Nat.le_total lo hi with hle | hle
  · exact hrest (hi - lo) lo state (Nat.le_refl _) (by omega)
  · rw [Nat.sub_eq_zero_of_le hle]
    rfl

/-- A body of one step. -/
theorem forRange_eq_foldlM_map [LawfulMonad m] {β : Type*} {lo hi : ℕ} {body : ℕ → σ → m σ}
    (step : σ → β → m σ) (f : ℕ → β)
    (hbody : ∀ i state, lo ≤ i → i < hi → body i state = step state (f i)) (state : σ) :
    forRange lo hi body state = ((List.range' lo (hi - lo)).map f).foldlM step state := by
  have hstep : ∀ i state, lo ≤ i → i < hi → body i state = [f i].foldlM step state := by
    intro i state hlo hhi
    rw [hbody i state hlo hhi]
    simp
  rw [forRange_eq_foldlM step (fun i => [f i]) hstep, ← List.map_eq_flatMap]

theorem forRange_succ [LawfulMonad m] {lo hi : ℕ} (hlt : lo < hi) (body : ℕ → σ → m σ)
    (state : σ) :
    forRange lo hi body state = body lo state >>= forRange (lo + 1) hi body := by
  obtain ⟨count, hcount⟩ : ∃ count, hi - lo = count + 1 := ⟨hi - lo - 1, by omega⟩
  have hrest : hi - (lo + 1) = count := by omega
  unfold forRange
  rw [hcount, hrest, List.range'_succ, List.foldlM_cons]

/-- A loop that reads the cells of an array one after the other. -/
theorem forRange_cells {β : Type*} {cells : List β} {body : ℕ → σ → m σ} (step : σ → β → m σ)
    (hbody : ∀ i state cell, cells[i]? = some cell → body i state = step state cell) (state : σ) :
    forRange 0 cells.length body state = cells.foldlM step state := by
  have hrest : ∀ (count start : ℕ) (state : σ), start + count = cells.length →
      (List.range' start count).foldlM (fun state i => body i state) state =
        (cells.drop start).foldlM step state := by
    intro count
    induction count with
    | zero =>
        intro start state hlength
        rw [List.drop_of_length_le (by omega)]
        rfl
    | succ count ih =>
        intro start state hlength
        have hlt : start < cells.length := by omega
        rw [List.range'_succ, List.foldlM_cons, List.drop_eq_getElem_cons hlt, List.foldlM_cons,
          hbody start state _ (List.getElem?_eq_getElem hlt)]
        congr 1
        funext next
        exact ih (start + 1) next (by omega)
  exact hrest cells.length 0 state (Nat.zero_add _)

/-- A loop of which the state before each index is known. -/
theorem forRange_eq_pure [LawfulMonad m] {lo hi : ℕ} {body : ℕ → σ → m σ} (state : ℕ → σ)
    (hbody : ∀ i, lo ≤ i → i < hi → body i (state i) = pure (state (i + 1))) (hle : lo ≤ hi) :
    forRange lo hi body (state lo) = pure (state hi) := by
  obtain ⟨count, rfl⟩ := Nat.exists_eq_add_of_le hle
  induction count generalizing lo with
  | zero => simp [forRange]
  | succ count ih =>
      rw [forRange_succ (by omega), hbody lo (Nat.le_refl _) (by omega), pure_bind]
      have hsucc : lo + (count + 1) = lo + 1 + count := by omega
      rw [hsucc] at hbody ⊢
      exact ih (fun i hlo hhi => hbody i (by omega) hhi) (by omega)

/-- Of the steps of a nest of two loops, those for an index itself, when there are no others. -/
theorem flatMap_range'_diagonal {β : Type*} {i n : ℕ} (hlt : i < n) (steps : ℕ → ℕ → List β)
    (hoff : ∀ j k, i < k → steps j k = []) :
    ((List.range' i (n - i)).flatMap fun j => (List.range' j (n - j)).flatMap (steps j)) =
      steps i i := by
  obtain ⟨count, hcount⟩ : ∃ count, n - i = count + 1 := ⟨n - i - 1, by omega⟩
  have hrows : ((List.range' (i + 1) count).flatMap fun j =>
      (List.range' j (n - j)).flatMap (steps j)) = [] := by
    apply List.flatMap_eq_nil_iff.mpr
    intro j hj
    apply List.flatMap_eq_nil_iff.mpr
    intro k hk
    rw [List.mem_range'_1] at hj hk
    exact hoff j k (by omega)
  have hcells : (List.range' (i + 1) count).flatMap (steps i) = [] := by
    apply List.flatMap_eq_nil_iff.mpr
    intro k hk
    rw [List.mem_range'_1] at hk
    exact hoff i k (by omega)
  rw [hcount, List.range'_succ, List.flatMap_cons, hrows, List.append_nil, hcount,
    List.range'_succ, List.flatMap_cons, hcells, List.append_nil]

/-- Computations that all succeed. -/
theorem exists_mapM_eq_some {β : Type _} {γ : Type _} {f : β → Option γ} {P : β → γ → Prop}
    {items : List β} (hall : ∀ item ∈ items, ∃ result, f item = some result ∧ P item result) :
    ∃ results, items.mapM f = some results ∧ List.Forall₂ P items results := by
  induction items with
  | nil => exact ⟨[], rfl, .nil⟩
  | cons item items ih =>
      obtain ⟨⟨result, hresult, hitem⟩, hrest⟩ := List.forall_mem_cons.mp hall
      obtain ⟨results, hresults, hitems⟩ := ih hrest
      refine ⟨result :: results, ?_, .cons hitem hitems⟩
      rw [List.mapM_cons, hresult, hresults]
      rfl

/-! ## Cells of an array -/

/-- Modify the cell with an index, if there is one. -/
def modifyAt? (cells : List α) (i : ℕ) (f : α → α) : Option (List α) :=
  if i < cells.length then some (cells.modify i f) else none

/-- An array whose cells are a function of their indices. -/
theorem modifyAt?_map_range {n i : ℕ} (hlt : i < n) (g : ℕ → α) (f : α → α) :
    modifyAt? ((List.range n).map g) i f =
      some ((List.range n).map fun k => if k = i then f (g k) else g k) := by
  unfold modifyAt?
  rw [if_pos (by simpa using hlt)]
  congr 1
  apply List.ext_getElem (by simp)
  intro k hk _
  simp only [List.getElem_modify, List.getElem_map, List.getElem_range, eq_comm]

/-- The array when its first cells have been modified. -/
def modifiedBy : List (α → α) → List α → List α
  | f :: fs, x :: cells => f x :: modifiedBy fs cells
  | _, cells => cells

@[simp] theorem modifiedBy_nil (cells : List α) : modifiedBy [] cells = cells := by
  cases cells with
  | nil => rfl
  | cons => rfl

@[simp] theorem length_modifiedBy (fs : List (α → α)) (cells : List α) :
    (modifiedBy fs cells).length = cells.length := by
  induction fs generalizing cells with
  | nil => simp
  | cons f fs ih =>
      cases cells with
      | nil => rfl
      | cons x cells => simp [modifiedBy, ih]

theorem modify_modifiedBy (fs : List (α → α)) (f : α → α) (cells : List α) :
    (modifiedBy fs cells).modify fs.length f = modifiedBy (fs ++ [f]) cells := by
  induction fs generalizing cells with
  | nil =>
      cases cells with
      | nil => rfl
      | cons x cells => simp [modifiedBy]
  | cons first fs ih =>
      cases cells with
      | nil => rfl
      | cons x cells => simp [modifiedBy, ih]

/-- The next cell is modified. -/
theorem modifyAt?_modifiedBy {fs : List (α → α)} {cells : List α}
    (hlt : fs.length < cells.length) (f : α → α) :
    modifyAt? (modifiedBy fs cells) fs.length f = some (modifiedBy (fs ++ [f]) cells) := by
  unfold modifyAt?
  rw [length_modifiedBy, if_pos hlt, modify_modifiedBy]

/-- The cells are modified by their indices. -/
theorem foldlM_modifyAt?_range {n : ℕ} {cells : List α} (hle : n ≤ cells.length)
    (f : ℕ → α → α) :
    ((List.range n).map fun i => (i, f i)).foldlM (fun cells step => modifyAt? cells step.1 step.2)
      cells = some (modifiedBy ((List.range n).map f) cells) := by
  induction n with
  | zero => simp
  | succ n ih =>
      have hlength : ((List.range n).map f).length = n := by simp
      have hlt : ((List.range n).map f).length < cells.length := by omega
      have hnext := modifyAt?_modifiedBy hlt (f n)
      rw [hlength] at hnext
      rw [List.range_succ, List.map_append, List.foldlM_append, ih (by omega)]
      simpa using hnext

/-- The cells are modified by a pointer that walks from the first one on. -/
theorem foldlM_walk {fs : List (α → α)} {cells : List α} (hle : fs.length ≤ cells.length) :
    fs.foldlM (fun state f => (modifyAt? state.1 state.2 f).map fun cells => (cells, state.2 + 1))
      (cells, 0) = some (modifiedBy fs cells, fs.length) := by
  induction fs using List.reverseRecOn with
  | nil => simp
  | append_singleton fs f ih =>
      rw [List.length_append, List.length_singleton] at hle
      rw [List.foldlM_append, ih (by omega)]
      simp [modifyAt?_modifiedBy (show fs.length < cells.length by omega)]

/-- All cells have been modified. -/
theorem modifiedBy_map {ι : Type*} (indices : List ι) (f : ι → α → α) (g : ι → α) :
    modifiedBy (indices.map f) (indices.map g) = indices.map fun i => f i (g i) := by
  induction indices with
  | nil => rfl
  | cons i indices ih => simp [modifiedBy, ih]

/-- All cells have been written. -/
theorem modifiedBy_const {values cells : List α} (hlength : values.length = cells.length) :
    modifiedBy (values.map fun value _ => value) cells = values := by
  induction values generalizing cells with
  | nil => simpa using hlength.symm
  | cons value values ih =>
      cases cells with
      | nil => cases hlength
      | cons x cells => simp [modifiedBy, ih (Nat.succ.inj hlength)]

/-- A cell that has not been modified yet. -/
theorem getElem?_modifiedBy_of_le {fs : List (α → α)} {cells : List α} {i : ℕ}
    (hle : fs.length ≤ i) : (modifiedBy fs cells)[i]? = cells[i]? := by
  induction fs generalizing cells i with
  | nil => rw [modifiedBy_nil]
  | cons f fs ih =>
      cases cells with
      | nil => rfl
      | cons x cells =>
          cases i with
          | zero => cases hle
          | succ i => exact ih (Nat.le_of_succ_le_succ hle)

/-! ## Rows of an array -/

/-- Some rows one behind the other: the row with index `i` has the columns from `i` on. -/
def flatRows (width : ℕ → ℕ) (cell : ℕ → ℕ → α) (rows : ℕ) : List α :=
  (List.range rows).flatMap fun i => (List.range' i (width i)).map (cell i)

/-- Where a row begins. -/
def rowStart (width : ℕ → ℕ) (i : ℕ) : ℕ := ((List.range i).map width).sum

variable {width : ℕ → ℕ} {cell : ℕ → ℕ → α} {rows : ℕ}

theorem rowStart_succ (width : ℕ → ℕ) (i : ℕ) :
    rowStart width (i + 1) = rowStart width i + width i := by
  simp [rowStart, List.range_succ]

theorem flatRows_succ (width : ℕ → ℕ) (cell : ℕ → ℕ → α) (rows : ℕ) :
    flatRows width cell (rows + 1) =
      flatRows width cell rows ++ (List.range' rows (width rows)).map (cell rows) := by
  simp [flatRows, List.range_succ]

theorem length_flatRows (width : ℕ → ℕ) (cell : ℕ → ℕ → α) (rows : ℕ) :
    (flatRows width cell rows).length = rowStart width rows := by
  induction rows with
  | zero => rfl
  | succ rows ih => rw [flatRows_succ, List.length_append, ih, rowStart_succ]; simp

theorem rowStart_le {first second : ℕ} (hle : first ≤ second) :
    rowStart width first ≤ rowStart width second := by
  induction second, hle using Nat.le_induction with
  | base => exact Nat.le_refl _
  | succ second _ ih => rw [rowStart_succ]; omega

theorem flatRows_congr {other : ℕ → ℕ} (hwidth : ∀ i, i < rows → width i = other i) :
    flatRows width cell rows = flatRows other cell rows := by
  unfold flatRows
  apply List.flatMap_congr
  intro i hi
  rw [hwidth i (List.mem_range.mp hi)]

theorem map_flatRows {β : Type*} (f : α → β) (width : ℕ → ℕ) (cell : ℕ → ℕ → α) (rows : ℕ) :
    (flatRows width cell rows).map f = flatRows width (fun i j => f (cell i j)) rows := by
  simp [flatRows, List.map_flatMap, Function.comp_def]

/-- The cell of a row and a column. -/
theorem getElem?_flatRows {i j : ℕ} (hrow : i < rows) (hle : i ≤ j) (hlt : j < i + width i) :
    (flatRows width cell rows)[rowStart width i + (j - i)]? = some (cell i j) := by
  induction rows with
  | zero => cases hrow
  | succ rows ih =>
      rw [flatRows_succ]
      rcases Nat.lt_succ_iff_lt_or_eq.mp hrow with hbefore | rfl
      · have hstart : rowStart width (i + 1) ≤ rowStart width rows := rowStart_le hbefore
        rw [rowStart_succ] at hstart
        rw [List.getElem?_append_left (by rw [length_flatRows]; omega)]
        exact ih hbefore
      · rw [List.getElem?_append_right (by rw [length_flatRows]; omega), length_flatRows,
          Nat.add_sub_cancel_left, List.getElem?_map, List.getElem?_range' (by omega)]
        simp only [Option.map_some, Nat.one_mul]
        congr 2
        omega

end Nidas.Lib
