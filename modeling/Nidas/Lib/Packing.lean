import Mathlib.Data.List.Infix

/-!
# Items packed into groups, and the longest prefix made of items

Two notions about lists that are put together from the encodings of items, for a
writer and for a reader of them.

* `Packed encode items done pending`: what was written and what is still pending
  hold every item once and in order, and nothing written cuts an item in two.
* `LongestPrefix P whole part`: no prefix of `whole` that is a concatenation of
  lists with `P` is longer than `part`, which is one.  When `P` is prefix free a
  scan from the front that stops at the first list without `P` finds it.
-/

namespace Nidas.Lib

variable {α β : Type*}

/-! ## Packing -/

/-- Each list of `done` is a non-empty group of whole items, and the groups in
order followed by `pending` hold the items once and in order. -/
def Packed (encode : α → List β) (items : List α) (done : List (List β)) (pending : List β) :
    Prop :=
  ∃ (groups : List (List α)) (last : List α), (∀ group ∈ groups, group ≠ []) ∧
    done = groups.map (fun group => group.flatMap encode) ∧
    pending = last.flatMap encode ∧ items = groups.flatten ++ last

namespace Packed

variable {encode : α → List β} {items : List α} {done : List (List β)} {pending : List β}

theorem nil : Packed encode [] [] [] :=
  ⟨[], [], by simp, rfl, rfl, rfl⟩

/-- An item appended to what is pending. -/
theorem append (hpacked : Packed encode items done pending) (item : α) :
    Packed encode (items ++ [item]) done (pending ++ encode item) := by
  obtain ⟨groups, last, hne, hdone, hpending, hitems⟩ := hpacked
  refine ⟨groups, last ++ [item], hne, hdone, ?_, ?_⟩
  · rw [hpending, List.flatMap_append, List.flatMap_singleton]
  · rw [hitems, List.append_assoc]

/-- What is pending written as one more group. -/
theorem flush (hpacked : Packed encode items done pending) (hpending : pending ≠ []) :
    Packed encode items (done ++ [pending]) [] := by
  obtain ⟨groups, last, hne, hdone, rfl, hitems⟩ := hpacked
  refine ⟨groups ++ [last], [], ?_, ?_, rfl, ?_⟩
  · intro group hgroup
    rcases List.mem_append.mp hgroup with hgroup | hgroup
    · exact hne group hgroup
    · rintro rfl
      have hlast : last = [] := (List.mem_singleton.mp hgroup).symm
      exact hpending (by rw [hlast, List.flatMap_nil])
  · rw [hdone, List.map_append, List.map_singleton]
  · rw [hitems, List.flatten_append, List.flatten_singleton, List.append_nil]

end Packed

/-! ## Concatenations -/

/-- A concatenation of lists with `P`. -/
def Concatenation (P : List β → Prop) (whole : List β) : Prop :=
  ∃ items : List (List β), (∀ item ∈ items, P item) ∧ items.flatten = whole

/-- The longest prefix of `whole` that is a concatenation of lists with `P`. -/
structure LongestPrefix (P : List β → Prop) (whole part : List β) : Prop where
  isPrefix : part <+: whole
  concatenation : Concatenation P part
  longest : ∀ other, other <+: whole → Concatenation P other → other.length ≤ part.length

/-- No list with `P` is a proper prefix of another. -/
def PrefixFree (P : List β → Prop) : Prop :=
  ∀ item other, P item → P other → item <+: other → item = other

variable {P : List β → Prop}

theorem Concatenation.nil : Concatenation P [] :=
  ⟨[], by simp, rfl⟩

theorem Concatenation.cons {item rest : List β} (hitem : P item) (hrest : Concatenation P rest) :
    Concatenation P (item ++ rest) := by
  obtain ⟨items, hitems, rfl⟩ := hrest
  exact ⟨item :: items, by simpa using ⟨hitem, hitems⟩, rfl⟩

/-- Of two prefixes of one list with `P`, neither is shorter. -/
theorem PrefixFree.eq_of_prefix (hfree : PrefixFree P) {item other whole : List β} (hitem : P item)
    (hother : P other) (hle : item <+: whole) (hle' : other <+: whole) : item = other := by
  rcases List.prefix_or_prefix_of_prefix hle hle' with hfront | hfront
  · exact hfree item other hitem hother hfront
  · exact (hfree other item hother hitem hfront).symm

namespace LongestPrefix

variable {whole part : List β}

/-- Nothing is kept if no list with `P` stands at the front. -/
theorem of_none (hnone : ∀ item, item <+: whole → ¬ P item) : LongestPrefix P whole [] := by
  refine ⟨List.nil_prefix, .nil, ?_⟩
  rintro other hother ⟨items, hitems, rfl⟩
  cases items with
  | nil => simp
  | cons item items =>
      have hitem : item <+: whole := (List.prefix_append item items.flatten).trans hother
      exact absurd (hitems item List.mem_cons_self) (hnone item hitem)

/-- One list with `P` is passed over. -/
theorem cons (hfree : PrefixFree P) {item : List β} (hitem : P item)
    (hlongest : LongestPrefix P whole part) : LongestPrefix P (item ++ whole) (item ++ part) := by
  refine ⟨List.prefix_append_right_inj item |>.mpr hlongest.isPrefix,
    .cons hitem hlongest.concatenation, ?_⟩
  rintro other hother ⟨items, hitems, rfl⟩
  cases items with
  | nil => simp
  | cons first items =>
      have hfirst : first <+: item ++ whole :=
        (List.prefix_append first items.flatten).trans hother
      obtain rfl : first = item :=
        hfree.eq_of_prefix (hitems first List.mem_cons_self) hitem hfirst (List.prefix_append ..)
      have hrest : items.flatten <+: whole := (List.prefix_append_right_inj first).mp hother
      have hle := hlongest.longest items.flatten hrest
        ⟨items, fun item hmem => hitems item (List.mem_cons_of_mem _ hmem), rfl⟩
      simpa using hle

/-- A concatenation is its own longest prefix. -/
theorem eq_self (hlongest : LongestPrefix P whole part) (hwhole : Concatenation P whole) :
    part = whole := by
  have hle := hlongest.longest whole (List.prefix_refl whole) hwhole
  exact hlongest.isPrefix.eq_of_length_le hle

end LongestPrefix

end Nidas.Lib
