import Mathlib.Data.List.TakeWhile
import Mathlib.Order.Defs.LinearOrder
import Mathlib.Order.Lattice

/-!
# Lists in the order of a key

A multiset that is ordered by a key, as a list from the least key to the greatest.  An element is
inserted behind those with the same key, and the elements below a bound are a front part of the
list.  When at most `count` elements are of some kind, the element that has `count` elements
behind it has no greater key than one that is not of this kind.
-/

namespace Nidas.Lib

variable {α κ : Type*} [LinearOrder κ] (key : α → κ)

/-- The elements stand in the order of their keys. -/
def InOrder (list : List α) : Prop :=
  list.Pairwise fun first second => key first ≤ key second

/-- Insert behind the elements whose key is not greater. -/
def insertUpper (new : α) : List α → List α
  | [] => [new]
  | first :: rest =>
      if key new < key first then new :: first :: rest else first :: insertUpper new rest

/-- The elements in front of `lower_bound`. -/
def below (bound : κ) (list : List α) : List α :=
  list.takeWhile fun element => decide (key element < bound)

/-- The elements from `lower_bound` on. -/
def notBelow (bound : κ) (list : List α) : List α :=
  list.dropWhile fun element => decide (key element < bound)

/-- The element that has `count` elements behind it. -/
def fromEnd (count : ℕ) (list : List α) : Option α := list.reverse[count]?

variable {key}

theorem insertUpper_perm (new : α) (list : List α) :
    (insertUpper key new list).Perm (new :: list) := by
  induction list with
  | nil => exact .refl _
  | cons first rest ih =>
      unfold insertUpper
      split
      · exact .refl _
      · exact (ih.cons first).trans (.swap new first rest)

theorem InOrder.insertUpper {list : List α} (h : InOrder key list) (new : α) :
    InOrder key (insertUpper key new list) := by
  induction list with
  | nil => exact List.pairwise_singleton _ _
  | cons first rest ih =>
      obtain ⟨hfirst, hrest⟩ := List.pairwise_cons.mp h
      unfold Lib.insertUpper
      split
      · next hlt =>
          apply List.pairwise_cons.mpr ⟨_, h⟩
          intro other hother
          rcases List.mem_cons.mp hother with rfl | hother
          · exact hlt.le
          · exact hlt.le.trans (hfirst other hother)
      · next hge =>
          apply List.pairwise_cons.mpr ⟨_, ih hrest⟩
          intro other hother
          rcases List.mem_cons.mp ((insertUpper_perm new rest).mem_iff.mp hother) with rfl | hother
          · exact not_lt.mp hge
          · exact hfirst other hother

theorem below_append_notBelow (bound : κ) (list : List α) :
    below key bound list ++ notBelow key bound list = list :=
  List.takeWhile_append_dropWhile

theorem key_lt_of_mem_below {bound : κ} {list : List α} {element : α}
    (h : element ∈ below key bound list) : key element < bound := by
  have hdecide := List.mem_takeWhile_imp h
  exact of_decide_eq_true hdecide

theorem InOrder.le_key_of_mem_notBelow {bound : κ} {list : List α} (hlist : InOrder key list)
    {element : α} (h : element ∈ notBelow key bound list) : bound ≤ key element := by
  induction list with
  | nil => cases h
  | cons first rest ih =>
      obtain ⟨hfirst, hrest⟩ := List.pairwise_cons.mp hlist
      by_cases hlt : key first < bound
      · have hdrop : Lib.notBelow key bound (first :: rest) = Lib.notBelow key bound rest :=
          List.dropWhile_cons_of_pos (decide_eq_true hlt)
        rw [hdrop] at h
        exact ih hrest h
      · have hkeep : Lib.notBelow key bound (first :: rest) = first :: rest :=
          List.dropWhile_cons_of_neg (by simpa using hlt)
        rw [hkeep] at h
        rcases List.mem_cons.mp h with rfl | hmem
        · exact not_lt.mp hlt
        · exact (not_lt.mp hlt).trans (hfirst element hmem)

theorem InOrder.below {list : List α} (hlist : InOrder key list) (bound : κ) :
    InOrder key (below key bound list) :=
  hlist.sublist (List.takeWhile_sublist _)

theorem InOrder.notBelow {list : List α} (hlist : InOrder key list) (bound : κ) :
    InOrder key (notBelow key bound list) :=
  hlist.sublist (List.dropWhile_sublist _)

/-- With at most `count` elements of a kind, one of the last `count + 1` is not of this kind, and
its key is not less than that of the first of them. -/
theorem InOrder.exists_not_of_countP_le {list : List α} (hlist : InOrder key list) {kind : α → Bool}
    {count : ℕ} (hcount : list.countP kind ≤ count) {late : α}
    (hlate : fromEnd count list = some late) :
    ∃ element ∈ list, kind element = false ∧ key late ≤ key element := by
  unfold fromEnd at hlate
  obtain ⟨hlt, hget⟩ := List.getElem?_eq_some_iff.mp hlate
  have hsplit : list.reverse.take (count + 1) = list.reverse.take count ++ [late] := by
    rw [List.take_add_one, hlate]
    rfl
  -- not all of the last elements are of this kind
  have hnot : ∃ element ∈ list.reverse.take (count + 1), kind element = false := by
    by_contra hnone
    have hall : ∀ element ∈ list.reverse.take (count + 1), kind element = true := by
      intro element helement
      by_contra hkind
      exact hnone ⟨element, helement, Bool.eq_false_iff.mpr hkind⟩
    have hlength : (list.reverse.take (count + 1)).countP kind = count + 1 := by
      rw [List.countP_eq_length.mpr hall, List.length_take, min_eq_left hlt]
    have hle : (list.reverse.take (count + 1)).countP kind ≤ list.reverse.countP kind :=
      (List.take_sublist (count + 1) list.reverse).countP_le
    rw [List.countP_reverse] at hle
    omega
  obtain ⟨element, helement, hkind⟩ := hnot
  have hmem := List.mem_reverse.mp ((List.take_sublist _ _).subset helement)
  refine ⟨element, hmem, hkind, ?_⟩
  rw [hsplit, List.mem_append, List.mem_singleton] at helement
  rcases helement with hfront | rfl
  · have hdrop : list.reverse.drop count = late :: list.reverse.drop (count + 1) := by
      rw [List.drop_eq_getElem_cons hlt, hget]
    have hpair := List.pairwise_reverse.mpr hlist
    rw [← List.take_append_drop count list.reverse, hdrop] at hpair
    exact (List.pairwise_append.mp hpair).2.2 element hfront late List.mem_cons_self
  · exact le_refl _

end Nidas.Lib
