import Mathlib.Data.List.Pairwise
import Mathlib.Order.Basic
import Mathlib.Order.Lattice

/-!
# Maps as lists in the order of their keys

A map with ordered keys, as the list of its entries from the least key to the greatest.  An
entry is found by its key, the assignment to a key replaces the entry or puts a new one in its
place, and the keys stay in order.
-/

namespace Nidas.Lib

variable {κ β : Type*} [LinearOrder κ]

/-- The value of a key. -/
def lookupKey (key : κ) : List (κ × β) → Option β
  | [] => none
  | entry :: rest => if key = entry.1 then some entry.2 else lookupKey key rest

/-- The assignment of a value to a key. -/
def insertKey (key : κ) (value : β) : List (κ × β) → List (κ × β)
  | [] => [(key, value)]
  | entry :: rest =>
      if key < entry.1 then (key, value) :: entry :: rest
      else if key = entry.1 then (key, value) :: rest
      else entry :: insertKey key value rest

/-- The removal of a key. -/
def eraseKey (key : κ) (entries : List (κ × β)) : List (κ × β) :=
  entries.filter fun entry => entry.1 ≠ key

/-- The keys stand in order. -/
def KeysInOrder (entries : List (κ × β)) : Prop :=
  (entries.map Prod.fst).Pairwise (· < ·)

variable {key other : κ} {value : β} {entries : List (κ × β)}

@[simp] theorem lookupKey_nil : lookupKey key ([] : List (κ × β)) = none := rfl

theorem lookupKey_insertKey_self : lookupKey key (insertKey key value entries) = some value := by
  induction entries with
  | nil => simp [insertKey, lookupKey]
  | cons entry rest ih =>
      unfold insertKey
      split
      · simp [lookupKey]
      · split
        · simp [lookupKey]
        · next hne => rw [lookupKey, if_neg hne, ih]

theorem lookupKey_insertKey_of_ne (hne : other ≠ key) :
    lookupKey other (insertKey key value entries) = lookupKey other entries := by
  induction entries with
  | nil => simp [insertKey, lookupKey, hne]
  | cons entry rest ih =>
      unfold insertKey
      split
      · rw [lookupKey, if_neg hne]
      · split
        · next heq => rw [lookupKey, if_neg hne, lookupKey, if_neg (heq ▸ hne)]
        · rw [lookupKey, lookupKey, ih]

theorem lookupKey_eraseKey_self : lookupKey key (eraseKey key entries) = none := by
  induction entries with
  | nil => rfl
  | cons entry rest ih =>
      unfold eraseKey at ih ⊢
      by_cases hentry : entry.1 = key
      · rw [List.filter_cons_of_neg (by simpa using hentry), ih]
      · rw [List.filter_cons_of_pos (by simpa using hentry), lookupKey,
          if_neg (fun heq => hentry heq.symm), ih]

theorem lookupKey_eraseKey_of_ne (hne : other ≠ key) :
    lookupKey other (eraseKey key entries) = lookupKey other entries := by
  induction entries with
  | nil => rfl
  | cons entry rest ih =>
      unfold eraseKey at ih ⊢
      by_cases hentry : entry.1 = key
      · rw [List.filter_cons_of_neg (by simpa using hentry), ih, lookupKey,
          if_neg (hentry ▸ hne)]
      · rw [List.filter_cons_of_pos (by simpa using hentry), lookupKey, lookupKey, ih]

theorem mem_of_lookupKey (hlookup : lookupKey key entries = some value) :
    (key, value) ∈ entries := by
  induction entries with
  | nil => cases hlookup
  | cons entry rest ih =>
      rw [lookupKey] at hlookup
      split at hlookup
      · next heq =>
          cases hlookup
          rw [heq]
          exact List.mem_cons_self
      · exact List.mem_cons_of_mem _ (ih hlookup)

theorem lookupKey_of_mem (horder : KeysInOrder entries) (hmem : (key, value) ∈ entries) :
    lookupKey key entries = some value := by
  induction entries with
  | nil => cases hmem
  | cons entry rest ih =>
      unfold KeysInOrder at horder
      rw [List.map_cons, List.pairwise_cons] at horder
      rw [lookupKey]
      rcases List.mem_cons.mp hmem with rfl | hrest
      · rw [if_pos rfl]
      · have hlt : entry.1 < key := horder.1 key (List.mem_map_of_mem hrest)
        rw [if_neg hlt.ne', ih horder.2 hrest]

theorem exists_lookupKey_iff : (∃ value, lookupKey key entries = some value) ↔
    key ∈ entries.map Prod.fst := by
  induction entries with
  | nil => simp
  | cons entry rest ih =>
      rw [List.map_cons, List.mem_cons, lookupKey]
      split
      · next heq => simp [heq]
      · next hne => rw [ih, or_iff_right hne]

/-- The keys after an assignment, whatever the values are. -/
theorem map_fst_insertKey {γ : Type*} {others : List (κ × γ)} {otherValue : γ}
    (hkeys : entries.map Prod.fst = others.map Prod.fst) :
    (insertKey key value entries).map Prod.fst =
      (insertKey key otherValue others).map Prod.fst := by
  induction entries generalizing others with
  | nil =>
      cases others with
      | nil => rfl
      | cons entry rest => simp at hkeys
  | cons entry rest ih =>
      cases others with
      | nil => simp at hkeys
      | cons other others =>
          obtain ⟨hfirst, hrest⟩ := List.cons.inj hkeys
          unfold insertKey
          rw [← hfirst]
          split
          · simp only [List.map_cons, hrest, hfirst]
          · split
            · simp only [List.map_cons, hrest]
            · simp only [List.map_cons, ih hrest, hfirst]

theorem map_fst_eraseKey : (eraseKey key entries).map Prod.fst =
    (entries.map Prod.fst).filter fun other => other ≠ key := by
  rw [List.filter_map]
  rfl

theorem KeysInOrder.insertKey (horder : KeysInOrder entries) :
    KeysInOrder (insertKey key value entries) := by
  unfold KeysInOrder at horder ⊢
  induction entries with
  | nil => simp [Lib.insertKey]
  | cons entry rest ih =>
      rw [List.map_cons, List.pairwise_cons] at horder
      unfold Lib.insertKey
      split
      · next hlt =>
          rw [List.map_cons, List.map_cons, List.pairwise_cons, List.pairwise_cons]
          refine ⟨?_, horder⟩
          intro other hother
          rcases List.mem_cons.mp hother with rfl | hmem
          · exact hlt
          · exact hlt.trans (horder.1 other hmem)
      · next hge =>
          split
          · next heq =>
              rw [List.map_cons, List.pairwise_cons, heq]
              exact horder
          · next hne =>
              rw [List.map_cons, List.pairwise_cons]
              refine ⟨?_, ih horder.2⟩
              intro other hother
              obtain ⟨found, hfound⟩ := exists_lookupKey_iff.mpr hother
              by_cases hkey : other = key
              · rw [hkey]
                exact lt_of_le_of_ne (not_lt.mp hge) (fun heq => hne heq.symm)
              · rw [lookupKey_insertKey_of_ne hkey] at hfound
                exact horder.1 other (exists_lookupKey_iff.mp ⟨found, hfound⟩)

theorem KeysInOrder.eraseKey (horder : KeysInOrder entries) :
    KeysInOrder (eraseKey key entries) := by
  unfold KeysInOrder at horder ⊢
  rw [map_fst_eraseKey]
  exact horder.filter _

theorem KeysInOrder.nodup (horder : KeysInOrder entries) : (entries.map Prod.fst).Nodup :=
  horder.imp fun hlt => hlt.ne

end Nidas.Lib
