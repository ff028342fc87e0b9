import Mathlib.Tactic.Ring
import Nidas.Lib.MachineInt

/-!
# Bit arrays

A `BitArray` has its bits in bytes, bits 0 to 7 in the first one.  An assignment keeps the bytes
that have been allocated when they are enough, so there may be more of them than the length takes.

## Strategy

All operations are described by what they do to the single bits (`bit`).  `setBits` and `setBits64`
go through the bits of a range with a mask, which is shifted from one to the next
(`bit_setBitsLoop`).
In both of them the mask is of type `unsigned int`, so that it is zero behind the 32nd bit.
`getBits64` takes whole bytes if the range begins with one, and single bits otherwise; both ways
give the bits of the range (`getLsbD_getBits`).

Indices are natural numbers here, and the arithmetic of the bytes is that of bit vectors.  Only the
end of a range can exceed the range of an `int`, where it is clipped to the width of the value.
-/

namespace Nidas.Util

/-- A `BitArray`: its bytes, of which there are `lenBytes`, hold the bits. -/
structure BitArray where
  bits : List (BitVec 8)
  lenBits : ℕ
  fits : lenBits ≤ 8 * bits.length
  /-- The number of bytes is computed from the length without an overflow. -/
  inInt : lenBits + 7 < 2 ^ 31

namespace BitArray

/-- The number of bytes that a number of bits takes. -/
def bytesFor (lenbits : ℕ) : ℕ := (lenbits + 7) / 8

theorem le_bytesFor (lenbits : ℕ) : lenbits ≤ 8 * bytesFor lenbits := by
  unfold bytesFor
  omega

/-- The constructor, with all bits 0. -/
def new (lenbits : ℕ) (hlen : lenbits + 7 < 2 ^ 31) : BitArray where
  bits := List.replicate (bytesFor lenbits) 0
  lenBits := lenbits
  fits := by
    rw [List.length_replicate]
    exact le_bytesFor lenbits
  inInt := hlen

/-- `BitArray::operator =`; the bytes are kept if there are enough of them. -/
def assign (x ba : BitArray) : BitArray where
  bits := ba.bits ++ List.replicate (x.bits.length - ba.bits.length) 0
  lenBits := ba.lenBits
  fits := by
    have := ba.fits
    rw [List.length_append]
    omega
  inInt := ba.inInt

/-- A byte. -/
def byte (x : BitArray) (i : ℕ) : BitVec 8 := x.bits.getD i 0

/-- The bits of the bytes. -/
def bit (x : BitArray) (i : ℕ) : Bool := (x.byte (i / 8)).getLsbD (i % 8)

/-- Store a byte. -/
def setByte (x : BitArray) (i : ℕ) (value : BitVec 8) : BitArray where
  bits := x.bits.set i value
  lenBits := x.lenBits
  fits := by
    rw [List.length_set]
    exact x.fits
  inInt := x.inInt

/-- `BitArray::setBit`, which ignores requests that are out of range -/
def setBit (x : BitArray) (num : ℕ) (value : Bool) : BitArray :=
  if num ≥ x.lenBits then x
  else if value then x.setByte (num / 8) (x.byte (num / 8) ||| 1#8 <<< (num % 8))
  else x.setByte (num / 8) (x.byte (num / 8) &&& ~~~(1#8 <<< (num % 8)))

/-- `BitArray::getBit` -/
def getBit (x : BitArray) (num : ℕ) : Bool := if num ≥ x.lenBits then false else x.bit num

/-- The loop of `setBits` and `setBits64`, over a number of bits from an index on. -/
def setBitsLoop {w : ℕ} (bitmask : BitVec w) : ℕ → ℕ → BitVec 32 → BitArray → BitArray
  | 0, _, _, x => x
  | count + 1, i, mask, x =>
      setBitsLoop bitmask count (i + 1) (mask <<< 1)
        (x.setBit i (decide (mask.setWidth w &&& bitmask ≠ 0)))

/-- The end of a range, not more than `w` bits behind its begin and not behind the array. -/
def clip (x : BitArray) (w first last : ℕ) : ℕ :=
  (min (min (last : ℤ) (Lib.toInt32 (first + w))) x.lenBits).toNat

/-- `setBits` and `setBits64`, whose values have a width of `w` bits -/
def setBitsOf {w : ℕ} (x : BitArray) (first last : ℕ) (bitmask : BitVec w) : BitArray :=
  setBitsLoop bitmask (x.clip w first last - first) first 1#32 x

/-- `BitArray::setBits(int, int, unsigned int)` -/
def setBits (x : BitArray) (first last : ℕ) (bitmask : BitVec 32) : BitArray :=
  x.setBitsOf first last bitmask

/-- `BitArray::setBits64` -/
def setBits64 (x : BitArray) (first last : ℕ) (bitmask : BitVec 64) : BitArray :=
  x.setBitsOf first last bitmask

/-- The loop over whole bytes, from the last of them to the first. -/
def getBytesLoop (x : BitArray) (w first : ℕ) : ℕ → BitVec 8 → BitVec w → BitVec w
  | 0, _, res => res
  | i + 1, bmask, res =>
      getBytesLoop x w first i 0xff#8 (res <<< 8 ||| (x.byte (i + first) &&& bmask).setWidth w)

/-- The loop over single bits. -/
def getBitsLoop (x : BitArray) (w : ℕ) : ℕ → ℕ → BitVec w → BitVec w → BitVec w
  | 0, _, _, res => res
  | count + 1, i, mask, res =>
      getBitsLoop x w count (i + 1) (mask <<< 1) (if x.getBit i then res ||| mask else res)

/-- `getBits` and `getBits64`, whose results have a width of `w` bits -/
def getBitsOf (x : BitArray) (w first last : ℕ) : BitVec w :=
  let last := x.clip w first last
  if first ≥ last then 0#w
  else if first % 8 = 0 then
    let bmask := if last % 8 ≠ 0 then 0xff#8 >>> (8 - last % 8) else 0xff#8
    getBytesLoop x w (first / 8) ((last - first + 7) / 8) bmask 0#w
  else getBitsLoop x w (last - first) first 1#w 0#w

/-- `BitArray::getBits(int, int)` -/
def getBits (x : BitArray) (first last : ℕ) : BitVec 32 := x.getBitsOf 32 first last

/-- `BitArray::getBits64` -/
def getBits64 (x : BitArray) (first last : ℕ) : BitVec 64 := x.getBitsOf 64 first last

/-! ## Single bits -/

theorem byte_setByte (x : BitArray) {i : ℕ} (hi : i < x.bits.length) (value : BitVec 8) (j : ℕ) :
    (x.setByte i value).byte j = if j = i then value else x.byte j := by
  unfold byte setByte
  simp only [List.getD_eq_getElem?_getD, List.getElem?_set]
  by_cases hj : j = i
  · rw [if_pos hj.symm, if_pos hj, if_pos hi, Option.getD_some]
  · rw [if_neg (Ne.symm hj), if_neg hj]

theorem lenBits_setBit (x : BitArray) (num : ℕ) (value : Bool) :
    (x.setBit num value).lenBits = x.lenBits := by
  unfold setBit
  split
  · rfl
  · split <;> rfl

theorem bit_setBit (x : BitArray) {num : ℕ} (hnum : num < x.lenBits) (value : Bool) (i : ℕ) :
    (x.setBit num value).bit i = if i = num then value else x.bit i := by
  have hbyte : num / 8 < x.bits.length := by
    have := x.fits
    omega
  have hone : ∀ p, p < 8 → (1#8 <<< (num % 8)).getLsbD p = decide (p = num % 8) := by
    intro p hp
    rw [BitVec.getLsbD_shiftLeft, BitVec.getLsbD_one]
    by_cases hlt : p < num % 8
    · simp [hlt, hlt.ne]
    · by_cases heq : p = num % 8
      · simp [heq, Nat.mod_lt]
      · have hne : ¬(p - num % 8 = 0) := by omega
        simp [heq, hne]
  have hp : i % 8 < 8 := Nat.mod_lt _ (by decide)
  unfold bit setBit
  rw [if_neg (not_le.mpr hnum)]
  cases value with
  | true =>
      rw [if_pos rfl, byte_setByte x hbyte]
      by_cases hdiv : i / 8 = num / 8
      · rw [if_pos hdiv, BitVec.getLsbD_or, hone _ hp, hdiv]
        by_cases hmod : i % 8 = num % 8
        · have heq : i = num := by omega
          simp [heq]
        · have hne : i ≠ num := by
            rintro rfl
            exact hmod rfl
          simp [hmod, hne]
      · have hne : i ≠ num := by
          rintro rfl
          exact hdiv rfl
        rw [if_neg hdiv, if_neg hne]
  | false =>
      rw [if_neg (by simp), byte_setByte x hbyte]
      by_cases hdiv : i / 8 = num / 8
      · rw [if_pos hdiv, BitVec.getLsbD_and, BitVec.getLsbD_not, hone _ hp, hdiv]
        by_cases hmod : i % 8 = num % 8
        · have heq : i = num := by omega
          simp [heq]
        · have hne : i ≠ num := by
            rintro rfl
            exact hmod rfl
          simp [hmod, hne, hp]
      · have hne : i ≠ num := by
          rintro rfl
          exact hdiv rfl
        rw [if_neg hdiv, if_neg hne]

theorem getBit_eq_bit (x : BitArray) {i : ℕ} (hi : i < x.lenBits) : x.getBit i = x.bit i := by
  unfold getBit
  rw [if_neg (not_le.mpr hi)]

/-! ## The end of a range -/

theorem clip_of_range (x : BitArray) {w first last : ℕ} (hw : first + w < 2 ^ 31)
    (hlast : last ≤ first + w) (hlen : last ≤ x.lenBits) : x.clip w first last = last := by
  unfold clip
  rw [Lib.toInt32_of_range (by omega) (by omega)]
  omega

/-- If the sum exceeds the range, it becomes negative, and nothing is left of the range. -/
theorem clip_le_of_overflow (x : BitArray) {w first last : ℕ} (hfirst : first < x.lenBits)
    (hw : w ≤ 64) (hover : 2 ^ 31 ≤ first + w) : x.clip w first last = 0 := by
  have hint := x.inInt
  have hwrap : Lib.toInt32 (first + w) = Lib.toInt32 (first + w - 2 ^ 32) := by
    have hcancel := Int.add_bmod_right ((first : ℤ) + w - 2 ^ 32) (2 ^ 32)
    push_cast at hcancel
    rw [sub_add_cancel] at hcancel
    exact hcancel
  have hnegative : Lib.toInt32 (first + w) < 0 := by
    rw [hwrap, Lib.toInt32_of_range (by omega) (by omega)]
    omega
  unfold clip
  omega

/-! ## Setting the bits of a range -/

theorem lenBits_setBitsLoop {w : ℕ} (bitmask : BitVec w) (count : ℕ) :
    ∀ (i : ℕ) (mask : BitVec 32) (x : BitArray),
      (setBitsLoop bitmask count i mask x).lenBits = x.lenBits := by
  induction count with
  | zero =>
      intro i mask x
      rfl
  | succ count ih =>
      intro i mask x
      calc (setBitsLoop bitmask (count + 1) i mask x).lenBits
          = (x.setBit i (decide (mask.setWidth w &&& bitmask ≠ 0))).lenBits := ih _ _ _
        _ = x.lenBits := lenBits_setBit x i _

/-- The mask of a bit selects that bit, unless the bit has been shifted out of the mask. -/
theorem mask_and_ne_zero {w : ℕ} (bitmask : BitVec w) (k : ℕ) :
    decide ((1#32 <<< k).setWidth w &&& bitmask ≠ 0) = (decide (k < 32) && bitmask.getLsbD k) := by
  have hbits : ∀ i, ((1#32 <<< k).setWidth w &&& bitmask).getLsbD i
      = (decide (k < 32) && decide (i = k) && bitmask.getLsbD i) := by
    intro i
    rw [BitVec.getLsbD_and, BitVec.getLsbD_setWidth, BitVec.getLsbD_shiftLeft, BitVec.getLsbD_one]
    by_cases hiw : i < w
    · by_cases hik : i = k
      · simp [hik ▸ hiw, hik]
      · by_cases hlt : i < k
        · simp [hlt, hik]
        · have hne : ¬(i - k = 0) := by omega
          simp [hik, hne]
    · simp [BitVec.getLsbD_of_ge bitmask i (not_lt.mp hiw)]
  cases hset : (decide (k < 32) && bitmask.getLsbD k) with
  | true =>
      rw [decide_eq_true_eq]
      intro hzero
      have hbit := hbits k
      rw [hzero] at hbit
      rw [Bool.and_eq_true] at hset
      simp [hset.1, hset.2] at hbit
  | false =>
      rw [decide_eq_false_iff_not, not_not]
      apply BitVec.eq_of_getLsbD_eq
      intro i _
      rw [hbits i]
      by_cases hik : i = k
      · subst hik
        simpa using hset
      · simp [hik]

theorem bit_setBitsLoop {w : ℕ} (bitmask : BitVec w) (count : ℕ) :
    ∀ (i k : ℕ) (x : BitArray), i + count ≤ x.lenBits → ∀ p,
      (setBitsLoop bitmask count i (1#32 <<< k) x).bit p =
        if i ≤ p ∧ p < i + count
        then (decide (k + (p - i) < 32) && bitmask.getLsbD (k + (p - i))) else x.bit p := by
  induction count with
  | zero =>
      intro i k x _ p
      rw [if_neg (by omega)]
      rfl
  | succ count ih =>
      intro i k x hlen p
      have hfirst : i < x.lenBits := by omega
      unfold setBitsLoop
      rw [← BitVec.shiftLeft_add, ih (i + 1) (k + 1) _ (by rw [lenBits_setBit]; omega) p,
        bit_setBit x hfirst, mask_and_ne_zero]
      by_cases hp : p = i
      · subst hp
        rw [if_neg (by omega), if_pos rfl, if_pos (by omega), Nat.sub_self, Nat.add_zero]
      · by_cases hrange : i ≤ p ∧ p < i + (count + 1)
        · rw [if_pos (by omega), if_pos hrange]
          have heq : k + 1 + (p - (i + 1)) = k + (p - i) := by omega
          rw [heq]
        · rw [if_neg (by omega), if_neg hp, if_neg hrange]

/-! ## Getting the bits of a range -/

theorem getLsbD_getBitsLoop (x : BitArray) (w count : ℕ) :
    ∀ (i k : ℕ) (res : BitVec w) (p : ℕ), p < w →
      (getBitsLoop x w count i (1#w <<< k) res).getLsbD p =
        (res.getLsbD p || (decide (k ≤ p ∧ p < k + count) && x.getBit (i + (p - k)))) := by
  induction count with
  | zero =>
      intro i k res p _
      simp [getBitsLoop]
  | succ count ih =>
      intro i k res p hp
      have hone : (1#w <<< k).getLsbD p = decide (p = k) := by
        rw [BitVec.getLsbD_shiftLeft]
        by_cases hlt : p < k
        · simp [hlt, hlt.ne]
        · have hsub : p - k < w := by omega
          by_cases heq : p = k
          · subst heq
            simp [hp]
            omega
          · have hne : ¬(p - k = 0) := by omega
            simp [heq, hlt, hne]
      unfold getBitsLoop
      rw [← BitVec.shiftLeft_add, ih (i + 1) (k + 1) _ p hp]
      by_cases heq : p = k
      · subst heq
        have hnext : ¬(p + 1 ≤ p ∧ p < p + 1 + count) := by omega
        have hthis : p ≤ p ∧ p < p + (count + 1) := by omega
        rw [decide_eq_false hnext, decide_eq_true hthis, Nat.sub_self, Nat.add_zero]
        cases x.getBit i with
        | true => rw [if_pos rfl, BitVec.getLsbD_or, hone, decide_eq_true rfl]; simp
        | false => rw [if_neg (by simp)]; simp
      · have hres : (if x.getBit i then res ||| 1#w <<< k else res).getLsbD p
            = res.getLsbD p := by
          cases x.getBit i with
          | true => rw [if_pos rfl, BitVec.getLsbD_or, hone, decide_eq_false heq, Bool.or_false]
          | false => rw [if_neg (by simp)]
        have hrange : (k + 1 ≤ p ∧ p < k + 1 + count) ↔ (k ≤ p ∧ p < k + (count + 1)) := by omega
        rw [hres, decide_eq_decide.mpr hrange]
        by_cases hlow : k ≤ p
        · have hindex : i + 1 + (p - (k + 1)) = i + (p - k) := by omega
          rw [hindex]
        · have hout : ¬(k ≤ p ∧ p < k + (count + 1)) := by omega
          simp [hout]

/-- The bits of a byte at the byte's place in the whole. -/
theorem getLsbD_byte (x : BitArray) (i : ℕ) {q : ℕ} (hq : q < 8) :
    (x.byte i).getLsbD q = x.bit (8 * i + q) := by
  unfold bit
  have hdiv : (8 * i + q) / 8 = i := by omega
  have hmod : (8 * i + q) % 8 = q := by omega
  rw [hdiv, hmod]

theorem getLsbD_getBytesLoop (x : BitArray) (w first n : ℕ) :
    ∀ (res : BitVec w) (p : ℕ), p < w →
      (getBytesLoop x w first n 0xff#8 res).getLsbD p =
        if p < 8 * n then x.bit (8 * first + p) else res.getLsbD (p - 8 * n) := by
  induction n with
  | zero =>
      intro res p _
      rw [if_neg (by omega)]
      rfl
  | succ n ih =>
      intro res p hp
      unfold getBytesLoop
      rw [ih _ p hp]
      by_cases hlow : p < 8 * n
      · rw [if_pos hlow, if_pos (by omega)]
      · rw [if_neg hlow, BitVec.getLsbD_or, BitVec.getLsbD_shiftLeft, BitVec.getLsbD_setWidth]
        have hin : p - 8 * n < w := by omega
        have hall : x.byte (n + first) &&& 0xff#8 = x.byte (n + first) := BitVec.and_allOnes
        rw [hall]
        by_cases hbyte : p < 8 * (n + 1)
        · have hq : p - 8 * n < 8 := by omega
          have hplace : 8 * (n + first) + (p - 8 * n) = 8 * first + p := by omega
          rw [if_pos hbyte, getLsbD_byte x _ hq, hplace]
          simp [hq, hin]
        · have hq : ¬(p - 8 * n < 8) := by omega
          have hrest : p - 8 * n - 8 = p - 8 * (n + 1) := by omega
          rw [if_neg hbyte, BitVec.getLsbD_of_ge (x.byte _) _ (not_lt.mp hq), hrest]
          simp [hq, hin]

/-- The mask of the highest byte lets the bits through that are in the range. -/
theorem getLsbD_highMask {r q : ℕ} (hr : r < 8) (hq : q < 8) :
    (if r ≠ 0 then 0xff#8 >>> (8 - r) else 0xff#8).getLsbD q
      = decide (r = 0 ∨ q < r) := by
  have hall : ∀ i, (0xff#8).getLsbD i = decide (i < 8) := fun i =>
    BitVec.getLsbD_allOnes
  by_cases hzero : r = 0
  · rw [if_neg (by simp [hzero]), hall]
    simp [hzero, hq]
  · rw [if_pos hzero, BitVec.getLsbD_ushiftRight, hall, decide_eq_decide]
    omega

/-- Both ways of reading give the bits of the clipped range. -/
theorem getLsbD_getBitsOf (x : BitArray) {w first last p : ℕ}
    (hlen : x.clip w first last ≤ x.lenBits) (hp : p < w) :
    (x.getBitsOf w first last).getLsbD p
      = (decide (first + p < x.clip w first last) && x.bit (first + p)) := by
  unfold getBitsOf
  generalize x.clip w first last = last' at hlen
  dsimp only
  by_cases hempty : first ≥ last'
  · have hout : ¬(first + p < last') := by omega
    rw [if_pos hempty, decide_eq_false hout, Bool.false_and, BitVec.getLsbD_zero]
  · rw [if_neg hempty]
    by_cases hwhole : first % 8 = 0
    · obtain ⟨n, hn⟩ : ∃ n, (last' - first + 7) / 8 = n + 1 :=
        ⟨(last' - first + 7) / 8 - 1, by omega⟩
      rw [if_pos hwhole, hn]
      unfold getBytesLoop
      rw [getLsbD_getBytesLoop x w (first / 8) n _ p hp]
      have hfirst : 8 * (first / 8) = first := by omega
      by_cases hlow : p < 8 * n
      · have hin : first + p < last' := by omega
        rw [if_pos hlow, hfirst, decide_eq_true hin, Bool.true_and]
      · rw [if_neg hlow, BitVec.getLsbD_or, BitVec.getLsbD_shiftLeft, BitVec.getLsbD_setWidth,
          BitVec.getLsbD_zero, Bool.and_false, Bool.false_or]
        have hin : p - 8 * n < w := by omega
        rw [decide_eq_true hin, Bool.true_and]
        by_cases hq : p - 8 * n < 8
        · rw [BitVec.getLsbD_and, getLsbD_highMask (Nat.mod_lt _ (by decide)) hq,
            getLsbD_byte x _ hq, Bool.and_comm]
          have hplace : 8 * (n + first / 8) + (p - 8 * n) = first + p := by omega
          have hrange : (last' % 8 = 0 ∨ p - 8 * n < last' % 8) ↔ first + p < last' := by omega
          rw [hplace, decide_eq_decide.mpr hrange]
        · have hout : ¬(first + p < last') := by omega
          rw [BitVec.getLsbD_of_ge _ _ (not_lt.mp hq), decide_eq_false hout, Bool.false_and]
    · rw [if_neg hwhole]
      have hloop := getLsbD_getBitsLoop x w (last' - first) first 0 0#w p hp
      rw [BitVec.shiftLeft_zero] at hloop
      rw [hloop, BitVec.getLsbD_zero, Bool.false_or, Nat.sub_zero]
      have hrange : (0 ≤ p ∧ p < 0 + (last' - first)) ↔ first + p < last' := by omega
      rw [decide_eq_decide.mpr hrange]
      by_cases hin : first + p < last'
      · rw [getBit_eq_bit x (by omega)]
      · rw [decide_eq_false hin, Bool.false_and, Bool.false_and]

/-! ## Setting a range and getting it back -/

/-- `y` has the length of `x` and the same bits outside of a range. -/
def KeptOutside (x y : BitArray) (first last : ℕ) : Prop :=
  y.lenBits = x.lenBits ∧ ∀ i, ¬(first ≤ i ∧ i < last) → y.bit i = x.bit i

/-- The value that is got back after a value has been set, and what is kept. -/
def RoundTrip {w : ℕ} (x : BitArray) (first last : ℕ) (value : BitVec w)
    (set : BitArray) (got : BitVec w) : Prop :=
  got.toNat = value.toNat % 2 ^ (last - first) ∧ KeptOutside x set first last

theorem toNat_eq_mod_iff {w : ℕ} (a : BitVec w) (value n : ℕ) (hn : n ≤ w) :
    a.toNat = value % 2 ^ n ↔ ∀ p < w, a.getLsbD p = (decide (p < n) && value.testBit p) := by
  have hbit : ∀ p, (value % 2 ^ n).testBit p = (decide (p < n) && value.testBit p) := fun p =>
    Nat.testBit_mod_two_pow value n p
  constructor
  · intro heq p _
    rw [← hbit p, ← heq]
    rfl
  · intro hall
    apply Nat.eq_of_testBit_eq
    intro p
    rw [hbit p]
    by_cases hp : p < w
    · exact hall p hp
    · have hout : ¬(p < n) := by omega
      rw [decide_eq_false hout, Bool.false_and]
      exact BitVec.getLsbD_of_ge a p (not_lt.mp hp)

theorem keptOutside_setBitsOf {w : ℕ} (x : BitArray) {first last : ℕ} (value : BitVec w)
    (hclip : x.clip w first last ≤ last) (hlen : x.clip w first last ≤ x.lenBits) :
    KeptOutside x (x.setBitsOf first last value) first last := by
  refine ⟨lenBits_setBitsLoop value _ _ _ _, ?_⟩
  intro i hi
  unfold setBitsOf
  by_cases hempty : x.clip w first last ≤ first
  · rw [Nat.sub_eq_zero_of_le hempty]
    rfl
  · have hloop := bit_setBitsLoop value (x.clip w first last - first) first 0 x (by omega) i
    rw [BitVec.shiftLeft_zero] at hloop
    rw [hloop, if_neg (by omega)]

/-- The bits that are got back in a range that is not clipped: those of the value up to bit 31. -/
theorem getLsbD_getBitsOf_setBitsOf {w : ℕ} (x : BitArray) {first last p : ℕ} (value : BitVec w)
    (hlt : first < last) (hclip : x.clip w first last = last) (hlen : last ≤ x.lenBits)
    (hp : p < w) :
    ((x.setBitsOf first last value).getBitsOf w first last).getLsbD p
      = (decide (p < last - first) && (decide (p < 32) && value.getLsbD p)) := by
  have hlenBits : (x.setBitsOf first last value).lenBits = x.lenBits :=
    lenBits_setBitsLoop value _ _ _ _
  have hclip' : (x.setBitsOf first last value).clip w first last = last := by
    unfold clip at hclip ⊢
    rw [hlenBits]
    exact hclip
  rw [getLsbD_getBitsOf _ (by rw [hclip', hlenBits]; exact hlen) hp, hclip']
  have hrange : first + p < last ↔ p < last - first := by omega
  rw [decide_eq_decide.mpr hrange]
  by_cases hin : p < last - first
  · have hloop := bit_setBitsLoop value (last - first) first 0 x (by omega) (first + p)
    rw [BitVec.shiftLeft_zero, if_pos (by omega), Nat.add_sub_cancel_left, Nat.zero_add] at hloop
    unfold setBitsOf
    rw [hclip, hloop]
  · rw [decide_eq_false hin, Bool.false_and, Bool.false_and]

/-- A remainder is less than `2 ^ 32` if no bit of it is set from the 33rd on. -/
theorem mod_lt_iff (value n : ℕ) :
    value % 2 ^ n < 2 ^ 32 ↔ ∀ p, p < n → value.testBit p = true → p < 32 := by
  have hbit : ∀ p, (value % 2 ^ n).testBit p = (decide (p < n) && value.testBit p) := fun p =>
    Nat.testBit_mod_two_pow value n p
  constructor
  · intro hlt p hp hset
    by_contra hge
    have hzero := Nat.testBit_lt_two_pow
      (lt_of_lt_of_le hlt (Nat.pow_le_pow_right (by decide) (not_lt.mp hge)))
    rw [hbit p, hset, decide_eq_true hp] at hzero
    exact absurd hzero (by decide)
  · intro hall
    apply Nat.lt_pow_two_of_testBit
    intro p hp
    rw [hbit p]
    by_cases hin : p < n
    · cases hset : value.testBit p with
      | false => rw [Bool.and_false]
      | true => exact absurd (hall p hin hset) (not_lt.mpr hp)
    · rw [decide_eq_false hin, Bool.false_and]

/-- A value comes back if all its bits in the range are in the mask's width, and if the end of the
range is computed without an overflow. -/
theorem roundTrip_setBitsOf_iff {w : ℕ} (hw : w ≤ 64) (x : BitArray) {first last : ℕ}
    (hlt : first < last) (hlen : last ≤ x.lenBits) (hwide : last - first ≤ w) (value : BitVec w) :
    RoundTrip x first last value (x.setBitsOf first last value)
        ((x.setBitsOf first last value).getBitsOf w first last)
      ↔ value.toNat % 2 ^ (last - first) = 0
        ∨ (value.toNat % 2 ^ (last - first) < 2 ^ 32 ∧ first + w < 2 ^ 31) := by
  unfold RoundTrip
  by_cases hrange : first + w < 2 ^ 31
  · have hclip := x.clip_of_range hrange (by omega) hlen
    have hkept := keptOutside_setBitsOf x value hclip.le (hclip.le.trans hlen)
    rw [and_iff_left hkept, and_iff_left hrange, toNat_eq_mod_iff _ _ _ hwide]
    have hzero : value.toNat % 2 ^ (last - first) = 0 →
        value.toNat % 2 ^ (last - first) < 2 ^ 32 := fun h => by omega
    rw [or_iff_right_of_imp hzero, mod_lt_iff]
    constructor
    · intro hall p hp hset
      have hbit := hall p (by omega)
      rw [getLsbD_getBitsOf_setBitsOf x value hlt hclip hlen (by omega), decide_eq_true hp,
        Bool.true_and, Bool.true_and, hset, Bool.and_eq_true, decide_eq_true_eq] at hbit
      exact hbit.1
    · intro hall p hp
      rw [getLsbD_getBitsOf_setBitsOf x value hlt hclip hlen hp]
      by_cases hin : p < last - first
      · cases hset : value.toNat.testBit p with
        | false =>
            have hset' : value.getLsbD p = false := hset
            rw [hset', Bool.and_false]
        | true =>
            have hset' : value.getLsbD p = true := hset
            rw [hset', decide_eq_true (hall p hin hset), Bool.true_and]
      · rw [decide_eq_false hin, Bool.false_and, Bool.false_and]
  · have hclip : x.clip w first last = 0 :=
      x.clip_le_of_overflow (by omega) hw (not_lt.mp hrange)
    have hsame : x.setBitsOf first last value = x := by
      unfold setBitsOf
      rw [hclip, Nat.zero_sub]
      rfl
    have hgot : x.getBitsOf w first last = 0#w := by
      unfold getBitsOf
      rw [hclip]
      exact if_pos (Nat.zero_le _)
    rw [hsame, hgot, BitVec.toNat_zero]
    constructor
    · rintro ⟨hzero, _⟩
      exact Or.inl hzero.symm
    · rintro (hzero | ⟨_, hfalse⟩)
      · exact ⟨hzero.symm, rfl, fun _ _ => rfl⟩
      · exact absurd hfalse hrange

/-- In a range of up to 64 bits `getBits64` gives back what `setBits64` has set if and only if no
bit of the value from the 33rd on is set in the range; in a range of up to 32 bits `getBits` gives
back what `setBits` has set.  At the end of an array of nearly `2 ^ 31` bits neither of them
works. -/
theorem setBits_getBits_iff (x : BitArray) {first last : ℕ} (hlt : first < last)
    (hlen : last ≤ x.lenBits) (hwide : last - first ≤ 64) (value : BitVec 64)
    (value32 : BitVec 32) :
    (RoundTrip x first last value (x.setBits64 first last value)
        ((x.setBits64 first last value).getBits64 first last)
      ∧ (last - first ≤ 32 → RoundTrip x first last value32 (x.setBits first last value32)
        ((x.setBits first last value32).getBits first last)))
    ↔ (value.toNat % 2 ^ (last - first) = 0
        ∨ (value.toNat % 2 ^ (last - first) < 2 ^ 32 ∧ first + 64 < 2 ^ 31))
      ∧ (last - first ≤ 32 →
          value32.toNat % 2 ^ (last - first) = 0 ∨ first + 32 < 2 ^ 31) := by
  have h64 := roundTrip_setBitsOf_iff le_rfl x hlt hlen hwide value
  apply and_congr h64
  apply imp_congr_right
  intro hwide32
  have hsmall : value32.toNat % 2 ^ (last - first) < 2 ^ 32 :=
    (Nat.mod_le _ _).trans_lt value32.isLt
  have h32 := roundTrip_setBitsOf_iff (by decide : 32 ≤ 64) x hlt hlen hwide32 value32
  rw [and_iff_right hsmall] at h32
  exact h32

/-- A range of 40 bits behind the first 3 bits. -/
theorem setBits_getBits_forty :
    RoundTrip (new 70 (by decide)) 3 43 0x1234#64 ((new 70 (by decide)).setBits64 3 43 0x1234#64)
        (((new 70 (by decide)).setBits64 3 43 0x1234#64).getBits64 3 43) :=
  ((@setBits_getBits_iff (new 70 (by decide)) 3 43 (by decide) (by decide) (by decide)
    0x1234#64 0#32).mpr ⟨Or.inr (by decide), fun h => absurd h (by decide)⟩).1

/-- The highest bit of a range of 40 bits is lost. -/
theorem not_roundTrip_highBit :
    ¬RoundTrip (new 70 (by decide)) 3 43 0x8000000000#64
        ((new 70 (by decide)).setBits64 3 43 0x8000000000#64)
        (((new 70 (by decide)).setBits64 3 43 0x8000000000#64).getBits64 3 43) := by
  rintro ⟨hvalue, _⟩
  revert hvalue
  decide +kernel

end BitArray

end Nidas.Util
