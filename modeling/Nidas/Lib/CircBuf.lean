import Mathlib.Data.List.Range
import Mathlib.Data.Nat.ModEq

/-!
# A circular buffer with a power of two as size

The head is the slot that is written next, the tail the one that is read next, and both are kept
below the size by masking.  One slot stays free, so that a full buffer is not taken for an empty
one.  `items` is what the buffer holds, in the order of reading: writing appends to it, reading
takes from its front.
-/

namespace Nidas.Lib

/-- The difference of two indices, of 32 bits and masked: `CIRC_CNT`. -/
def circCnt (head tail size : ℕ) : ℕ := (head + 2 ^ 32 - tail) % 2 ^ 32 &&& (size - 1)

/-- The number of slots that can be written: `CIRC_SPACE`. -/
def circSpace (head tail size : ℕ) : ℕ := circCnt tail (head + 1) size

/-- A circular buffer. -/
structure CircBuf (α : Type*) where
  size : ℕ
  buf : ℕ → α
  head : ℕ
  tail : ℕ
  size_pow : ∃ k, k ≤ 30 ∧ size = 2 ^ k
  head_lt : head < size
  tail_lt : tail < size

namespace CircBuf

variable {α : Type*} (ring : CircBuf α)

theorem size_pos : 0 < ring.size := by
  have := ring.head_lt
  omega

theorem size_le : ring.size ≤ 2 ^ 30 := by
  obtain ⟨k, hk, hsize⟩ := ring.size_pow
  rw [hsize]
  exact Nat.pow_le_pow_right (by decide) hk

theorem mask_eq_mod (index : ℕ) : index &&& (ring.size - 1) = index % ring.size := by
  obtain ⟨k, -, hsize⟩ := ring.size_pow
  rw [hsize]
  exact Nat.and_two_pow_sub_one_eq_mod index k

theorem mask_lt (index : ℕ) : index &&& (ring.size - 1) < ring.size := by
  rw [mask_eq_mod]
  exact Nat.mod_lt _ ring.size_pos

/-- Write the slot at the head. -/
def write (item : α) : CircBuf α :=
  { ring with buf := fun index => if index = ring.head then item else ring.buf index }

/-- `INCREMENT_HEAD` -/
def incrementHead : CircBuf α :=
  { ring with head := (ring.head + 1) &&& (ring.size - 1), head_lt := ring.mask_lt _ }

/-- `INCREMENT_TAIL` -/
def incrementTail : CircBuf α :=
  { ring with tail := (ring.tail + 1) &&& (ring.size - 1), tail_lt := ring.mask_lt _ }

/-- The number of items. -/
def count : ℕ := circCnt ring.head ring.tail ring.size

/-- There is a slot that can be written: `GET_HEAD`. -/
def hasSpace : Bool := 0 < circSpace ring.head ring.tail ring.size

/-- `GET_TAIL`: the slot that can be read. -/
def getTail : Option ℕ := if 0 < ring.count then some ring.tail else none

/-- Put an item into the buffer, if there is space. -/
def insert (item : α) : Option (CircBuf α) :=
  if ring.hasSpace then some (ring.write item).incrementHead else none

/-- What the buffer holds, the first to be read first. -/
def items : List α :=
  (List.range ring.count).map fun offset => ring.buf ((ring.tail + offset) % ring.size)

/-! ## Counting -/

theorem circCnt_eq (head : ℕ) {tail : ℕ} (htail : tail ≤ ring.size) :
    circCnt head tail ring.size = (head + ring.size - tail) % ring.size := by
  have hsize := ring.size_le
  obtain ⟨k, hk, hpow⟩ := ring.size_pow
  have hdvd : ring.size ∣ 2 ^ 32 := by
    rw [hpow]
    exact Nat.pow_dvd_pow 2 (by omega)
  unfold circCnt
  rw [mask_eq_mod, Nat.mod_mod_of_dvd _ hdvd]
  obtain ⟨pages, hpages⟩ := hdvd
  have hpages' : 2 ^ 32 = ring.size + ring.size * (pages - 1) := by
    cases pages with
    | zero => omega
    | succ pages => rw [hpages, Nat.add_sub_cancel, Nat.mul_succ, Nat.add_comm]
  have hsplit : head + 2 ^ 32 - tail = head + ring.size - tail + ring.size * (pages - 1) := by
    omega
  rw [hsplit, Nat.add_mul_mod_self_left]

/-- The count from the distance of the indices. -/
theorem count_eq : ring.count =
    if ring.tail ≤ ring.head then ring.head - ring.tail else ring.head + ring.size - ring.tail := by
  have hhead := ring.head_lt
  have htail := ring.tail_lt
  unfold count
  rw [ring.circCnt_eq ring.head htail.le]
  split
  · next hle =>
      have hsplit : ring.head + ring.size - ring.tail = ring.head - ring.tail + ring.size := by
        omega
      rw [hsplit, Nat.add_mod_right, Nat.mod_eq_of_lt (by omega)]
  · rw [Nat.mod_eq_of_lt (by omega)]

theorem count_lt : ring.count < ring.size := by
  have hhead := ring.head_lt
  have htail := ring.tail_lt
  rw [count_eq]
  split <;> omega

@[simp] theorem length_items : ring.items.length = ring.count := by simp [items]

/-- There is space as long as one more item leaves a slot free. -/
theorem hasSpace_iff : ring.hasSpace = true ↔ ring.count + 1 < ring.size := by
  have hhead := ring.head_lt
  have htail := ring.tail_lt
  unfold hasSpace circSpace
  rw [ring.circCnt_eq ring.tail hhead, count_eq, decide_eq_true_iff]
  split
  · next hle =>
      by_cases hfull : ring.tail = 0 ∧ ring.head + 1 = ring.size
      · have hzero : ring.tail + ring.size - (ring.head + 1) = 0 := by omega
        rw [hzero, Nat.zero_mod]
        omega
      · rw [Nat.mod_eq_of_lt (by omega)]
        omega
  · next hlt =>
      have hsplit : ring.tail + ring.size - (ring.head + 1) =
          ring.tail - (ring.head + 1) + ring.size := by omega
      rw [hsplit, Nat.add_mod_right, Nat.mod_eq_of_lt (by omega)]
      omega

theorem head_eq : ring.head = (ring.tail + ring.count) % ring.size := by
  have hhead := ring.head_lt
  have htail := ring.tail_lt
  rw [count_eq]
  split
  · rw [Nat.mod_eq_of_lt (by omega)]
    omega
  · have hsplit : ring.tail + (ring.head + ring.size - ring.tail) = ring.head + ring.size := by
      omega
    rw [hsplit, Nat.add_mod_right, Nat.mod_eq_of_lt hhead]

/-- Slots of different items are different. -/
theorem slot_injective {i j : ℕ} (hi : i < ring.size) (hj : j < ring.size)
    (heq : (ring.tail + i) % ring.size = (ring.tail + j) % ring.size) : i = j := by
  have hmod : i % ring.size = j % ring.size :=
    Nat.ModEq.add_left_cancel' ring.tail heq
  rwa [Nat.mod_eq_of_lt hi, Nat.mod_eq_of_lt hj] at hmod

/-! ## Writing and reading -/

theorem count_write_incrementHead (item : α) (hspace : ring.hasSpace = true) :
    (ring.write item).incrementHead.count = ring.count + 1 := by
  have hroom := ring.hasSpace_iff.mp hspace
  have hhead := ring.head_lt
  have htail := ring.tail_lt
  have hnew : (ring.write item).incrementHead.head =
      if ring.head + 1 = ring.size then 0 else ring.head + 1 := by
    simp only [incrementHead, write]
    rw [mask_eq_mod]
    split
    · next hwrap => rw [hwrap, Nat.mod_self]
    · rw [Nat.mod_eq_of_lt (by omega)]
  rw [count_eq] at hroom
  rw [count_eq, hnew, count_eq]
  simp only [incrementHead, write]
  split_ifs at * <;> omega

/-- **Writing** appends an item. -/
theorem items_insert {item : α} {next : CircBuf α} (hinsert : ring.insert item = some next) :
    next.items = ring.items ++ [item] := by
  unfold insert at hinsert
  split at hinsert
  · next hspace =>
      cases hinsert
      have hroom := ring.hasSpace_iff.mp hspace
      unfold items
      rw [ring.count_write_incrementHead item hspace, List.range_succ, List.map_append,
        List.map_singleton]
      simp only [incrementHead, write]
      congr 1
      · apply List.map_congr_left
        intro offset hmem
        have hoffset := List.mem_range.mp hmem
        rw [if_neg]
        rw [ring.head_eq]
        intro heq
        have := ring.slot_injective (by omega) (by omega) heq
        omega
      · rw [← ring.head_eq, if_pos rfl]
  · cases hinsert

theorem insert_tail {item : α} {next : CircBuf α} (hinsert : ring.insert item = some next) :
    next.tail = ring.tail := by
  unfold insert at hinsert
  split at hinsert
  · cases hinsert
    rfl
  · cases hinsert

theorem count_incrementTail (hcount : 0 < ring.count) :
    ring.incrementTail.count = ring.count - 1 := by
  have hhead := ring.head_lt
  have htail := ring.tail_lt
  have hnew : ring.incrementTail.tail =
      if ring.tail + 1 = ring.size then 0 else ring.tail + 1 := by
    simp only [incrementTail]
    rw [mask_eq_mod]
    split
    · next hwrap => rw [hwrap, Nat.mod_self]
    · rw [Nat.mod_eq_of_lt (by omega)]
  rw [count_eq] at hcount
  rw [count_eq, hnew, count_eq]
  simp only [incrementTail]
  split_ifs at * <;> omega

/-- The item in the slot that can be read is the first, and the others are left when the tail has
moved on. -/
theorem items_eq_cons (hcount : 0 < ring.count) :
    ring.items = ring.buf ring.tail :: ring.incrementTail.items := by
  have htail := ring.tail_lt
  obtain ⟨rest, hrest⟩ : ∃ rest, ring.count = rest + 1 := ⟨ring.count - 1, by omega⟩
  have hnext : ring.incrementTail.count = rest := by
    rw [ring.count_incrementTail hcount, hrest, Nat.add_sub_cancel]
  unfold items
  rw [hnext, hrest, List.range_succ_eq_map, List.map_cons, List.map_map]
  congr 1
  · rw [Nat.add_zero, Nat.mod_eq_of_lt htail]
  · apply List.map_congr_left
    intro offset _
    simp only [Function.comp, incrementTail]
    rw [mask_eq_mod, Nat.mod_add_mod]
    congr 2
    omega

end CircBuf

end Nidas.Lib
