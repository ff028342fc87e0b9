import Mathlib.Algebra.Order.Group.Abs
import Mathlib.Algebra.Order.Ring.Int

/-!
# The nearest item

Items with times are compared by their distance from a target time.  When the items come in the
order of their times, the nearest one is the last before the target or the first behind it, and no
later item changes that.
-/

namespace Nidas.Lib

variable {α : Type*} {target : ℤ} {items : List (ℤ × α)} {item : ℤ × α}

/-- An item that no other one is nearer than. -/
def IsNearest (target : ℤ) (items : List (ℤ × α)) (item : ℤ × α) : Prop :=
  item ∈ items ∧ ∀ other ∈ items, |item.1 - target| ≤ |other.1 - target|

/-- The latest item. -/
def IsLatest (items : List (ℤ × α)) (item : ℤ × α) : Prop :=
  item ∈ items ∧ ∀ other ∈ items, other.1 ≤ item.1

theorem IsLatest.concat (hlate : ∀ other ∈ items, other.1 ≤ item.1) :
    IsLatest (items ++ [item]) item := by
  refine ⟨List.mem_append_right _ List.mem_cons_self, ?_⟩
  intro other hother
  rcases List.mem_append.mp hother with hold | hnew
  · exact hlate other hold
  · rw [List.mem_singleton.mp hnew]

/-- The latest item is the nearest one if it is not behind the target. -/
theorem IsLatest.isNearest (hlatest : IsLatest items item) (hle : item.1 ≤ target) :
    IsNearest target items item := by
  refine ⟨hlatest.1, ?_⟩
  intro other hother
  have := hlatest.2 other hother
  rw [abs_of_nonpos (by omega), abs_of_nonpos (by omega)]
  omega

/-- Items that are not nearer can be added. -/
theorem IsNearest.append (hnearest : IsNearest target items item) {more : List (ℤ × α)}
    (hfar : ∀ other ∈ more, |item.1 - target| ≤ |other.1 - target|) :
    IsNearest target (items ++ more) item := by
  refine ⟨List.mem_append_left _ hnearest.1, ?_⟩
  intro other hother
  rcases List.mem_append.mp hother with hold | hnew
  · exact hnearest.2 other hold
  · exact hfar other hnew

/-- An item behind another one that is behind the target is not nearer. -/
theorem IsNearest.concat_later (hnearest : IsNearest target items item) {latest next : ℤ × α}
    (hlatest : IsLatest items latest) (htarget : target ≤ latest.1) (hnext : latest.1 ≤ next.1) :
    IsNearest target (items ++ [next]) item := by
  apply hnearest.append
  intro other hother
  rw [List.mem_singleton.mp hother]
  refine (hnearest.2 latest hlatest.1).trans ?_
  rw [abs_of_nonneg (by omega), abs_of_nonneg (by omega)]
  omega

/-- The first item behind the target is the nearest if it is nearer than the latest one before. -/
theorem IsLatest.isNearest_concat (hlatest : IsLatest items item) {next : ℤ × α}
    (htarget : target ≤ next.1) (hnearer : next.1 - target ≤ target - item.1) :
    IsNearest target (items ++ [next]) next := by
  refine ⟨List.mem_append_right _ List.mem_cons_self, ?_⟩
  intro other hother
  rcases List.mem_append.mp hother with hold | hnew
  · have := hlatest.2 other hold
    rw [abs_of_nonneg (by omega), abs_of_nonpos (by omega)]
    omega
  · rw [List.mem_singleton.mp hnew]

/-- Otherwise the latest one before it still is. -/
theorem IsLatest.isNearest_concat_far (hlatest : IsLatest items item) {next : ℤ × α}
    (hle : item.1 ≤ target) (htarget : target ≤ next.1)
    (hfarther : target - item.1 ≤ next.1 - target) :
    IsNearest target (items ++ [next]) item := by
  apply (hlatest.isNearest hle).append
  intro other hother
  rw [List.mem_singleton.mp hother, abs_of_nonpos (by omega), abs_of_nonneg (by omega)]
  omega

theorem isNearest_singleton (target : ℤ) (item : ℤ × α) : IsNearest target [item] item := by
  refine ⟨List.mem_cons_self, ?_⟩
  intro other hother
  rw [List.mem_singleton.mp hother]

end Nidas.Lib
