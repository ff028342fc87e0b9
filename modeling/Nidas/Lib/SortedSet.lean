import Mathlib.Data.List.Pairwise
import Mathlib.Order.Basic
import Mathlib.Order.Lattice

/-!
# Sets with a comparator

A set that is ordered by a comparator, as a list from the least element to the greatest.  Two
elements of which none is less than the other count as the same one, of which the first that is
inserted stays.  When the comparator is the order of a key, these are the elements with the same key.
-/

namespace Nidas.Lib

variable {α κ : Type*}

/-- Insert an element, if there is none that counts as the same. -/
def insertUnique (less : α → α → Bool) (new : α) : List α → List α
  | [] => [new]
  | first :: rest =>
      if less new first then new :: first :: rest
      else if less first new then first :: insertUnique less new rest
      else first :: rest

/-- The keys go up. -/
def KeysGoUp [LT κ] (key : α → κ) (set : List α) : Prop :=
  set.Pairwise fun first second => key first < key second

variable {less : α → α → Bool} {new element : α} {set : List α}

theorem mem_of_mem_insertUnique (hmem : element ∈ insertUnique less new set) :
    element = new ∨ element ∈ set := by
  induction set with
  | nil => exact .inl (List.mem_singleton.mp hmem)
  | cons first rest ih =>
      unfold insertUnique at hmem
      split at hmem
      · exact List.mem_cons.mp hmem
      · split at hmem
        · rcases List.mem_cons.mp hmem with rfl | hrest
          · exact .inr List.mem_cons_self
          · exact (ih hrest).imp_right (List.mem_cons_of_mem first)
        · exact .inr hmem

theorem mem_insertUnique_of_mem (hmem : element ∈ set) : element ∈ insertUnique less new set := by
  induction set with
  | nil => cases hmem
  | cons first rest ih =>
      unfold insertUnique
      split
      · exact List.mem_cons_of_mem new hmem
      · split
        · rcases List.mem_cons.mp hmem with rfl | hrest
          · exact List.mem_cons_self
          · exact List.mem_cons_of_mem first (ih hrest)
        · exact hmem

variable [LinearOrder κ] {key : α → κ}

/-- After an insertion there is an element with the key of the new one. -/
theorem exists_key_insertUnique (hless : ∀ x y, less x y = true ↔ key x < key y) :
    ∃ element ∈ insertUnique less new set, key element = key new := by
  induction set with
  | nil => exact ⟨new, List.mem_singleton_self new, rfl⟩
  | cons first rest ih =>
      unfold insertUnique
      split
      · exact ⟨new, List.mem_cons_self, rfl⟩
      · next hnew =>
          split
          · obtain ⟨element, hmem, hkey⟩ := ih
            exact ⟨element, List.mem_cons_of_mem first hmem, hkey⟩
          · next hfirst =>
              rw [hless] at hnew hfirst
              exact ⟨first, List.mem_cons_self, le_antisymm (not_lt.mp hnew) (not_lt.mp hfirst)⟩

theorem KeysGoUp.insertUnique (hless : ∀ x y, less x y = true ↔ key x < key y)
    (hset : KeysGoUp key set) : KeysGoUp key (insertUnique less new set) := by
  induction set with
  | nil => exact List.pairwise_singleton _ _
  | cons first rest ih =>
      obtain ⟨hfirst, hrest⟩ := List.pairwise_cons.mp hset
      unfold Lib.insertUnique
      split
      · next hnew =>
          rw [hless] at hnew
          apply List.pairwise_cons.mpr ⟨_, hset⟩
          intro other hother
          rcases List.mem_cons.mp hother with rfl | hother
          · exact hnew
          · exact hnew.trans (hfirst other hother)
      · split
        · next hnew =>
            rw [hless] at hnew
            apply List.pairwise_cons.mpr ⟨_, ih hrest⟩
            intro other hother
            rcases mem_of_mem_insertUnique hother with rfl | hother
            · exact hnew
            · exact hfirst other hother
        · exact hset

theorem KeysGoUp.nodup (hset : KeysGoUp key set) : set.Nodup :=
  hset.imp fun hlt heq => hlt.ne (congrArg key heq)

/-- At most one element has a key. -/
theorem KeysGoUp.eq_of_key (hset : KeysGoUp key set) {other : α} (hmem : element ∈ set)
    (hother : other ∈ set) (hkey : key element = key other) : element = other := by
  induction set with
  | nil => cases hmem
  | cons first rest ih =>
      obtain ⟨hfirst, hrest⟩ := List.pairwise_cons.mp hset
      rcases List.mem_cons.mp hmem with rfl | hrestMem
      · rcases List.mem_cons.mp hother with rfl | hrestOther
        · rfl
        · exact absurd hkey (hfirst other hrestOther).ne
      · rcases List.mem_cons.mp hother with rfl | hrestOther
        · exact absurd hkey (hfirst element hrestMem).ne'
        · exact ih hrest hrestMem hrestOther

end Nidas.Lib
