import Nidas.Util.BitArray

/-!
# The operators of bit arrays

The operators go through the whole bytes that both arrays have, and then treat the bits in the last
byte of the shorter length with a mask.

## Strategy

Two things go wrong in them.  The mask is not the one that was meant: `k << 1` is twice `k` and not
the `k`-th bit, so it lacks bits of the partial byte (`partialMask`).  And the number of bytes is
taken from what has been allocated, which may be more than the lengths take after an assignment.
`Clean` says when neither has an effect, and `operators_meet_iff` that the operators do then, and
only then, what they should (`Meets`).
-/

namespace Nidas.Util

namespace BitArray

/-! ## The operators -/

/-- The mask for the first `count` bits of the highest byte. -/
def partialMask : ℕ → BitVec 8
  | 0 => 0#8
  | k + 1 => partialMask k ||| BitVec.ofNat 8 (k <<< 1)

/-- The length of a result, `lbit`. -/
def minBits (x y : BitArray) : ℕ := min x.lenBits y.lenBits

/-- The number of bytes that are treated as a whole, `lbyte`. -/
def wholeBytes (x y : BitArray) : ℕ :=
  let lbyte := min x.bits.length y.bits.length
  if minBits x y % 8 ≠ 0 then lbyte - 1 else lbyte

/-- The comparison of whole bytes. -/
def equalBytes (x y : BitArray) : ℕ → Bool
  | 0 => true
  | i + 1 => equalBytes x y i && decide (x.byte i = y.byte i)

/-- `operator ==` -/
def equal (x y : BitArray) : Bool :=
  let lbyte := wholeBytes x y
  equalBytes x y lbyte &&
    (if minBits x y % 8 ≠ 0 then
      let mask := partialMask (minBits x y % 8)
      decide (mask &&& x.byte lbyte = mask &&& y.byte lbyte)
    else true)

/-- Store a byte of a result, which fails behind its bytes. -/
def store (res : BitArray) (i : ℕ) (value : BitVec 8) : Option BitArray :=
  if i < res.bits.length then some (res.setByte i value) else none

/-- The loop over the whole bytes of a result. -/
def combineBytes (op : BitVec 8 → BitVec 8 → BitVec 8) (x y : BitArray) :
    ℕ → BitArray → Option BitArray
  | 0, res => some res
  | i + 1, res => do
      let res ← combineBytes op x y i res
      res.store i (op (x.byte i) (y.byte i))

/-- An operator with a result of its own; without a value if it stores behind the result. -/
def combine (op : BitVec 8 → BitVec 8 → BitVec 8) (x y : BitArray) : Option BitArray := do
  let lbit := minBits x y
  let lbyte := wholeBytes x y
  let res ← combineBytes op x y lbyte (new lbit (by unfold lbit minBits; have := x.inInt; omega))
  if lbit % 8 ≠ 0 then
    res.store lbyte (partialMask (lbit % 8) &&& op (x.byte lbyte) (y.byte lbyte))
  else some res

/-- `operator &` -/
def and (x y : BitArray) : Option BitArray := combine (· &&& ·) x y

/-- `operator |` -/
def or (x y : BitArray) : Option BitArray := combine (· ||| ·) x y

/-- `operator ^` -/
def xor (x y : BitArray) : Option BitArray := combine (· ^^^ ·) x y

/-- The loop of an assignment over the whole bytes. -/
def assignBytes (op : BitVec 8 → BitVec 8 → BitVec 8) (y : BitArray) : ℕ → BitArray → BitArray
  | 0, x => x
  | i + 1, x =>
      let x := assignBytes op y i x
      x.setByte i (op (x.byte i) (y.byte i))

/-- An operator that changes its left operand; `last` computes the last byte. -/
def combineAssign (op : BitVec 8 → BitVec 8 → BitVec 8)
    (last : BitVec 8 → BitVec 8 → BitVec 8 → BitVec 8) (x y : BitArray) : BitArray :=
  let lbyte := wholeBytes x y
  let res := assignBytes op y lbyte x
  if minBits x y % 8 ≠ 0 then
    res.setByte lbyte (last (partialMask (minBits x y % 8)) (res.byte lbyte) (y.byte lbyte))
  else res

/-- `operator &=` -/
def andAssign (x y : BitArray) : BitArray :=
  combineAssign (· &&& ·) (fun mask x y => x &&& (mask &&& y)) x y

/-- `operator |=` -/
def orAssign (x y : BitArray) : BitArray :=
  combineAssign (· ||| ·) (fun mask x y => x ||| (mask &&& y)) x y

/-- `operator ^=`, which does not keep the bits outside of the mask -/
def xorAssign (x y : BitArray) : BitArray :=
  combineAssign (· ^^^ ·) (fun mask x y => mask &&& (x ^^^ y)) x y

/-! ## What they should do -/

/-- A result has the shorter length, and its bits are those of the operands combined. -/
def Combines (op : Bool → Bool → Bool) (x y : BitArray) (res : Option BitArray) : Prop :=
  ∃ r, res = some r ∧ r.lenBits = minBits x y ∧
    ∀ i < minBits x y, r.getBit i = op (x.getBit i) (y.getBit i)

/-- The left operand gets the combined bits below the shorter length and keeps its other bits. -/
def Assigns (op : Bool → Bool → Bool) (x y res : BitArray) : Prop :=
  res.lenBits = x.lenBits ∧
    (∀ i < minBits x y, res.getBit i = op (x.getBit i) (y.getBit i)) ∧
    ∀ i, minBits x y ≤ i → res.getBit i = x.getBit i

/-- The seven operators do what they should. -/
structure Meets (x y : BitArray) : Prop where
  and : Combines Bool.and x y (and x y)
  or : Combines Bool.or x y (or x y)
  xor : Combines Bool.xor x y (xor x y)
  andAssign : Assigns Bool.and x y (andAssign x y)
  orAssign : Assigns Bool.or x y (orAssign x y)
  xorAssign : Assigns Bool.xor x y (xorAssign x y)
  equal : equal x y = true ↔ ∀ i < minBits x y, x.getBit i = y.getBit i

/-- The operands do not run into the errors of the operators. -/
structure Clean (x y : BitArray) : Prop where
  /-- One operand has no more bytes than the shorter length takes. -/
  tight : min x.bits.length y.bits.length = bytesFor (minBits x y)
  /-- In the last byte, the bits that the mask lacks are 0 in both operands. -/
  masked : ∀ p < minBits x y % 8, (partialMask (minBits x y % 8)).getLsbD p = false →
    x.getBit (8 * (minBits x y / 8) + p) = false ∧ y.getBit (8 * (minBits x y / 8) + p) = false
  /-- The left operand has no bits that are set in the rest of that byte. -/
  rest : minBits x y % 8 ≠ 0 → ∀ i, minBits x y ≤ i → i < 8 * (minBits x y / 8) + 8 →
    x.getBit i = false

/-! ## Results of their own -/

variable {x y : BitArray}

/-- The mask has no bits behind the last bit that counts. -/
theorem lt_of_partialMask {count p : ℕ} (hcount : count < 8) (hp : p < 8)
    (hmask : (partialMask count).getLsbD p = true) : p < count := by
  have hall : ∀ c < 8, ∀ q < 8, (partialMask c).getLsbD q = true → q < c := by decide
  exact hall count hcount p hp hmask

theorem wholeBytes_of_tight (htight : min x.bits.length y.bits.length = bytesFor (minBits x y)) :
    wholeBytes x y = minBits x y / 8 := by
  unfold wholeBytes
  rw [htight]
  unfold bytesFor
  dsimp only
  split <;> omega

theorem combineBytes_of_le (op : BitVec 8 → BitVec 8 → BitVec 8) (res : BitArray) :
    ∀ n ≤ res.bits.length, ∃ r, combineBytes op x y n res = some r ∧ r.lenBits = res.lenBits ∧
      r.bits.length = res.bits.length ∧
      ∀ j, r.byte j = if j < n then op (x.byte j) (y.byte j) else res.byte j := by
  intro n
  induction n with
  | zero =>
      intro _
      refine ⟨res, rfl, rfl, rfl, ?_⟩
      intro j
      rw [if_neg (Nat.not_lt_zero j)]
  | succ n ih =>
      intro hn
      obtain ⟨r, hr, hlen, hbytes, hbyte⟩ := ih (by omega)
      have hin : n < r.bits.length := by omega
      refine ⟨r.setByte n (op (x.byte n) (y.byte n)), ?_, hlen, ?_, ?_⟩
      · simp only [combineBytes, hr, Option.bind_eq_bind, Option.bind_some, store, if_pos hin]
      · exact (List.length_set).trans hbytes
      · intro j
        rw [byte_setByte r hin, hbyte j]
        by_cases hj : j = n
        · rw [if_pos hj, if_pos (by omega), hj]
        · rw [if_neg hj]
          by_cases hlt : j < n
          · rw [if_pos hlt, if_pos (by omega)]
          · rw [if_neg hlt, if_neg (by omega)]

theorem le_of_combineBytes (op : BitVec 8 → BitVec 8 → BitVec 8) (res : BitArray) :
    ∀ (n : ℕ) (r : BitArray), combineBytes op x y n res = some r →
      n ≤ res.bits.length ∧ r.bits.length = res.bits.length := by
  intro n
  induction n with
  | zero =>
      intro r hr
      cases hr
      exact ⟨Nat.zero_le _, rfl⟩
  | succ n ih =>
      intro r hr
      obtain ⟨r', hr', hstore⟩ := Option.bind_eq_some_iff.mp hr
      obtain ⟨_, hbytes⟩ := ih r' hr'
      unfold store at hstore
      split at hstore
      · rename_i hin
        cases hstore
        exact ⟨by omega, (List.length_set).trans hbytes⟩
      · cases hstore

/-- If both operands have more bytes than the shorter length takes, the operator stores behind its
result. -/
theorem tight_of_combine {op : BitVec 8 → BitVec 8 → BitVec 8} {r : BitArray}
    (hr : combine op x y = some r) :
    min x.bits.length y.bits.length = bytesFor (minBits x y) := by
  obtain ⟨r', hr', hlast⟩ := Option.bind_eq_some_iff.mp hr
  obtain ⟨hwhole, hbytes⟩ := le_of_combineBytes op _ _ _ hr'
  have hnew : ∀ h, (new (minBits x y) h).bits.length = bytesFor (minBits x y) := fun h =>
    List.length_replicate
  rw [hnew] at hwhole hbytes
  have hx := x.fits
  have hy := y.fits
  have hge : bytesFor (minBits x y) ≤ min x.bits.length y.bits.length := by
    unfold bytesFor minBits
    omega
  apply le_antisymm _ hge
  by_cases hrest : minBits x y % 8 ≠ 0
  · have hlbyte : wholeBytes x y = min x.bits.length y.bits.length - 1 := if_pos hrest
    rw [if_pos hrest, hlbyte] at hlast
    unfold store at hlast
    by_cases hin : min x.bits.length y.bits.length - 1 < r'.bits.length
    · omega
    · rw [if_neg hin] at hlast
      cases hlast
  · have hlbyte : wholeBytes x y = min x.bits.length y.bits.length := if_neg hrest
    exact hlbyte ▸ hwhole

/-- An operation on bytes that works on the single bits. -/
def Bitwise (op : BitVec 8 → BitVec 8 → BitVec 8) (bop : Bool → Bool → Bool) : Prop :=
  ∀ (a b : BitVec 8) (p : ℕ), p < 8 → (op a b).getLsbD p = bop (a.getLsbD p) (b.getLsbD p)

theorem bit_eq_getLsbD (x : BitArray) (i : ℕ) : x.bit i = (x.byte (i / 8)).getLsbD (i % 8) := rfl

/-- The bits of a result: in the last byte the mask takes some of them away. -/
theorem combine_of_tight {op : BitVec 8 → BitVec 8 → BitVec 8} {bop : Bool → Bool → Bool}
    (hop : Bitwise op bop) (htight : min x.bits.length y.bits.length = bytesFor (minBits x y)) :
    ∃ r, combine op x y = some r ∧ r.lenBits = minBits x y ∧
      ∀ i < minBits x y, r.bit i =
        if i / 8 < minBits x y / 8 then bop (x.bit i) (y.bit i)
        else ((partialMask (minBits x y % 8)).getLsbD (i % 8) && bop (x.bit i) (y.bit i)) := by
  have hwhole := wholeBytes_of_tight htight
  have hnewLen : ∀ h, (new (minBits x y) h).bits.length = bytesFor (minBits x y) := fun h =>
    List.length_replicate
  obtain ⟨r, hr, hlen, hbytes, hbyte⟩ := @combineBytes_of_le x y op
    (new (minBits x y) (by unfold minBits; have := x.inInt; omega)) (minBits x y / 8) (by
      rw [hnewLen]
      unfold bytesFor
      omega)
  rw [hnewLen] at hbytes
  have hp : ∀ i, i % 8 < 8 := fun i => Nat.mod_lt _ (by decide)
  have hlow : ∀ i, i / 8 < minBits x y / 8 → r.bit i = bop (x.bit i) (y.bit i) := by
    intro i hi
    rw [bit_eq_getLsbD, hbyte, if_pos hi, hop _ _ _ (hp i)]
    rfl
  unfold combine
  simp only [hwhole, hr, Option.bind_eq_bind, Option.bind_some]
  by_cases hrest : minBits x y % 8 ≠ 0
  · have hin : minBits x y / 8 < r.bits.length := by
      rw [hbytes]
      unfold bytesFor
      omega
    rw [if_pos hrest]
    refine ⟨_, if_pos hin, hlen, ?_⟩
    intro i hi
    by_cases hi8 : i / 8 < minBits x y / 8
    · rw [if_pos hi8, ← hlow i hi8, bit_eq_getLsbD, byte_setByte r hin, if_neg hi8.ne]
      rfl
    · have heq : i / 8 = minBits x y / 8 := by omega
      rw [if_neg hi8, bit_eq_getLsbD, byte_setByte r hin, if_pos heq, BitVec.getLsbD_and,
        hop _ _ _ (hp i), ← heq]
      rfl
  · rw [if_neg hrest]
    refine ⟨r, rfl, hlen, ?_⟩
    intro i hi
    have hi8 : i / 8 < minBits x y / 8 := by omega
    rw [if_pos hi8, hlow i hi8]

/-- What an operator with a result of its own needs. -/
theorem combines_iff {op : BitVec 8 → BitVec 8 → BitVec 8} {bop : Bool → Bool → Bool}
    (hop : Bitwise op bop) :
    Combines bop x y (combine op x y) ↔
      min x.bits.length y.bits.length = bytesFor (minBits x y) ∧
        ∀ p < minBits x y % 8, (partialMask (minBits x y % 8)).getLsbD p = false →
          bop (x.getBit (8 * (minBits x y / 8) + p)) (y.getBit (8 * (minBits x y / 8) + p))
            = false := by
  have hx : ∀ i < minBits x y, x.getBit i = x.bit i := fun i hi =>
    getBit_eq_bit x (hi.trans_le (min_le_left _ _))
  have hy : ∀ i < minBits x y, y.getBit i = y.bit i := fun i hi =>
    getBit_eq_bit y (hi.trans_le (min_le_right _ _))
  constructor
  · rintro ⟨r, hr, hlen, hbits⟩
    have htight := tight_of_combine hr
    refine ⟨htight, ?_⟩
    intro p hp hmask
    obtain ⟨r', hr', hlen', hbits'⟩ := combine_of_tight hop htight
    cases hr.symm.trans hr'
    have hi : 8 * (minBits x y / 8) + p < minBits x y := by omega
    have hmod : (8 * (minBits x y / 8) + p) % 8 = p := by omega
    have hbit := hbits _ hi
    rw [getBit_eq_bit r (by omega), hbits' _ hi, if_neg (by omega), hmod, hmask,
      Bool.false_and] at hbit
    exact hbit.symm
  · rintro ⟨htight, hmasked⟩
    obtain ⟨r, hr, hlen, hbits⟩ := combine_of_tight hop htight
    refine ⟨r, hr, hlen, ?_⟩
    intro i hi
    rw [getBit_eq_bit r (by omega), hbits i hi]
    by_cases hlow : i / 8 < minBits x y / 8
    · rw [if_pos hlow, hx i hi, hy i hi]
    · have hplace : 8 * (minBits x y / 8) + i % 8 = i := by omega
      rw [if_neg hlow]
      cases hmask : (partialMask (minBits x y % 8)).getLsbD (i % 8) with
      | true => rw [Bool.true_and, hx i hi, hy i hi]
      | false =>
          have hfalse := hmasked (i % 8) (by omega) hmask
          rw [hplace] at hfalse
          rw [Bool.false_and, hfalse]

/-! ## Assignments -/

theorem assignBytes_spec (op : BitVec 8 → BitVec 8 → BitVec 8) (x y : BitArray) :
    ∀ n ≤ x.bits.length, (assignBytes op y n x).lenBits = x.lenBits ∧
      (assignBytes op y n x).bits.length = x.bits.length ∧
      ∀ j, (assignBytes op y n x).byte j =
        if j < n then op (x.byte j) (y.byte j) else x.byte j := by
  intro n
  induction n with
  | zero =>
      intro _
      refine ⟨rfl, rfl, ?_⟩
      intro j
      rw [if_neg (Nat.not_lt_zero j)]
      rfl
  | succ n ih =>
      intro hn
      obtain ⟨hlen, hbytes, hbyte⟩ := ih (by omega)
      have hin : n < (assignBytes op y n x).bits.length := by omega
      refine ⟨hlen, (List.length_set).trans hbytes, ?_⟩
      intro j
      unfold assignBytes
      rw [byte_setByte _ hin, hbyte n, hbyte j, if_neg (Nat.lt_irrefl n)]
      by_cases hj : j = n
      · rw [if_pos hj, if_pos (by omega), hj]
      · rw [if_neg hj]
        by_cases hlt : j < n
        · rw [if_pos hlt, if_pos (by omega)]
        · rw [if_neg hlt, if_neg (by omega)]

/-- The bits after an assignment. -/
theorem bit_combineAssign {op : BitVec 8 → BitVec 8 → BitVec 8} {bop : Bool → Bool → Bool}
    (hop : Bitwise op bop) (last : BitVec 8 → BitVec 8 → BitVec 8 → BitVec 8)
    (htight : min x.bits.length y.bits.length = bytesFor (minBits x y)) :
    (combineAssign op last x y).lenBits = x.lenBits ∧
      ∀ i, (combineAssign op last x y).bit i =
        if i / 8 < minBits x y / 8 then bop (x.bit i) (y.bit i)
        else if minBits x y % 8 ≠ 0 ∧ i / 8 = minBits x y / 8 then
          (last (partialMask (minBits x y % 8)) (x.byte (i / 8)) (y.byte (i / 8))).getLsbD (i % 8)
        else x.bit i := by
  have hwhole := wholeBytes_of_tight htight
  have hle : minBits x y / 8 ≤ x.bits.length := by
    have := x.fits
    unfold minBits
    omega
  obtain ⟨hlen, hbytes, hbyte⟩ := assignBytes_spec op x y _ hle
  have hp : ∀ i, i % 8 < 8 := fun i => Nat.mod_lt _ (by decide)
  have hassign : ∀ i, (assignBytes op y (minBits x y / 8) x).bit i =
      if i / 8 < minBits x y / 8 then bop (x.bit i) (y.bit i) else x.bit i := by
    intro i
    rw [bit_eq_getLsbD, hbyte]
    split
    · rw [hop _ _ _ (hp i)]
      rfl
    · rfl
  unfold combineAssign
  simp only [hwhole]
  by_cases hrest : minBits x y % 8 ≠ 0
  · have hin : minBits x y / 8 < (assignBytes op y (minBits x y / 8) x).bits.length := by
      rw [hbytes]
      have hlast : bytesFor (minBits x y) ≤ x.bits.length := by
        rw [← htight]
        exact min_le_left _ _
      unfold bytesFor at hlast
      omega
    rw [if_pos hrest]
    refine ⟨hlen, ?_⟩
    intro i
    rw [bit_eq_getLsbD, byte_setByte _ hin]
    by_cases heq : i / 8 = minBits x y / 8
    · rw [if_pos heq, if_neg (by omega), if_pos ⟨hrest, heq⟩, hbyte, if_neg (Nat.lt_irrefl _), heq]
    · rw [if_neg heq, ← bit_eq_getLsbD, hassign i]
      simp only [heq, and_false, if_false]
  · rw [if_neg hrest]
    refine ⟨hlen, ?_⟩
    intro i
    rw [hassign i]
    simp only [hrest, false_and, if_false]

/-- What an assignment needs: in the last byte, the bits of the range are combined and the others
are kept. -/
theorem assigns_iff {op : BitVec 8 → BitVec 8 → BitVec 8} {bop : Bool → Bool → Bool}
    (hop : Bitwise op bop) {last : BitVec 8 → BitVec 8 → BitVec 8 → BitVec 8}
    (blast : Bool → Bool → Bool → Bool)
    (hlast : ∀ (m a b : BitVec 8) (p : ℕ), p < 8 →
      (last m a b).getLsbD p = blast (m.getLsbD p) (a.getLsbD p) (b.getLsbD p))
    (htight : min x.bits.length y.bits.length = bytesFor (minBits x y)) :
    Assigns bop x y (combineAssign op last x y) ↔
      (∀ i, 8 * (minBits x y / 8) ≤ i → i < minBits x y →
        blast ((partialMask (minBits x y % 8)).getLsbD (i % 8)) (x.bit i) (y.bit i)
          = bop (x.bit i) (y.bit i)) ∧
      (minBits x y % 8 ≠ 0 → ∀ i, minBits x y ≤ i → i < 8 * (minBits x y / 8) + 8 →
        i < x.lenBits → blast false (x.bit i) (y.bit i) = x.bit i) := by
  obtain ⟨hlen, hbits⟩ := bit_combineAssign hop last htight
  have hx : ∀ i < minBits x y, x.getBit i = x.bit i := fun i hi =>
    getBit_eq_bit x (hi.trans_le (min_le_left _ _))
  have hy : ∀ i < minBits x y, y.getBit i = y.bit i := fun i hi =>
    getBit_eq_bit y (hi.trans_le (min_le_right _ _))
  have hres : ∀ i < x.lenBits,
      (combineAssign op last x y).getBit i = (combineAssign op last x y).bit i := fun i hi =>
    getBit_eq_bit _ (by omega)
  have hshort : minBits x y ≤ x.lenBits := min_le_left _ _
  -- the last byte, with the mask
  have hpart : ∀ i, minBits x y % 8 ≠ 0 → i / 8 = minBits x y / 8 →
      (combineAssign op last x y).bit i
        = blast ((partialMask (minBits x y % 8)).getLsbD (i % 8)) (x.bit i) (y.bit i) := by
    intro i hrest heq
    rw [hbits i, if_neg (by omega), if_pos ⟨hrest, heq⟩, hlast _ _ _ _ (Nat.mod_lt _ (by decide))]
    rfl
  have hmask : ∀ i, minBits x y % 8 ≠ 0 → i / 8 = minBits x y / 8 → minBits x y ≤ i →
      (partialMask (minBits x y % 8)).getLsbD (i % 8) = false := by
    intro i hrest heq hle
    cases hset : (partialMask (minBits x y % 8)).getLsbD (i % 8) with
    | false => rfl
    | true =>
        have := lt_of_partialMask (Nat.mod_lt _ (by decide)) (Nat.mod_lt _ (by decide)) hset
        omega
  constructor
  · rintro ⟨_, hbelow, habove⟩
    constructor
    · intro i hlow hi
      have hbit := hbelow i hi
      rw [hres i (by omega), hx i hi, hy i hi, hpart i (by omega) (by omega)] at hbit
      exact hbit
    · intro hrest i hle hi hin
      have hbit := habove i hle
      rw [hres i hin, hpart i hrest (by omega), hmask i hrest (by omega) hle,
        getBit_eq_bit x hin] at hbit
      exact hbit
  · rintro ⟨hbelow, habove⟩
    refine ⟨hlen, ?_, ?_⟩
    · intro i hi
      rw [hres i (by omega), hx i hi, hy i hi]
      by_cases hlow : i / 8 < minBits x y / 8
      · rw [hbits i, if_pos hlow]
      · rw [hpart i (by omega) (by omega)]
        exact hbelow i (by omega) hi
    · intro i hle
      by_cases hin : i < x.lenBits
      · rw [hres i hin, getBit_eq_bit x hin]
        by_cases hbyte : minBits x y % 8 ≠ 0 ∧ i / 8 = minBits x y / 8
        · rw [hpart i hbyte.1 hbyte.2, hmask i hbyte.1 hbyte.2 hle]
          exact habove hbyte.1 i hle (by omega) hin
        · rw [hbits i, if_neg (by omega), if_neg hbyte]
      · unfold getBit
        rw [if_pos (by omega), if_pos (not_lt.mp hin)]

/-! ## The comparison -/

theorem equalBytes_iff (x y : BitArray) (n : ℕ) :
    equalBytes x y n = true ↔ ∀ i < n, x.byte i = y.byte i := by
  induction n with
  | zero => simp [equalBytes]
  | succ n ih =>
      unfold equalBytes
      rw [Bool.and_eq_true, ih, decide_eq_true_eq]
      constructor
      · rintro ⟨hbelow, hlast⟩ i hi
        rcases Nat.lt_succ_iff_lt_or_eq.mp hi with hlt | rfl
        · exact hbelow i hlt
        · exact hlast
      · intro hall
        exact ⟨fun i hi => hall i (by omega), hall n (by omega)⟩

theorem equal_iff (hclean : Clean x y) :
    equal x y = true ↔ ∀ i < minBits x y, x.getBit i = y.getBit i := by
  have hwhole := wholeBytes_of_tight hclean.tight
  have hx : ∀ i < minBits x y, x.getBit i = x.bit i := fun i hi =>
    getBit_eq_bit x (hi.trans_le (min_le_left _ _))
  have hy : ∀ i < minBits x y, y.getBit i = y.bit i := fun i hi =>
    getBit_eq_bit y (hi.trans_le (min_le_right _ _))
  unfold equal
  simp only [hwhole]
  rw [Bool.and_eq_true, equalBytes_iff]
  constructor
  · rintro ⟨hbytes, hlast⟩ i hi
    rw [hx i hi, hy i hi]
    by_cases hlow : i / 8 < minBits x y / 8
    · rw [bit_eq_getLsbD, bit_eq_getLsbD, hbytes _ hlow]
    · have hrest : minBits x y % 8 ≠ 0 := by omega
      have hplace : 8 * (minBits x y / 8) + i % 8 = i := by omega
      have hdiv : minBits x y / 8 = i / 8 := by omega
      rw [if_pos hrest, decide_eq_true_eq, hdiv] at hlast
      have hbit := congrArg (fun b => b.getLsbD (i % 8)) hlast
      simp only [BitVec.getLsbD_and] at hbit
      cases hmask : (partialMask (minBits x y % 8)).getLsbD (i % 8) with
      | true =>
          rw [hmask, Bool.true_and, Bool.true_and] at hbit
          exact hbit
      | false =>
          obtain ⟨hxbit, hybit⟩ := hclean.masked _ (by omega) hmask
          rw [hplace] at hxbit hybit
          rw [← hx i hi, ← hy i hi, hxbit, hybit]
  · intro hbits
    have hbit : ∀ i < minBits x y, x.bit i = y.bit i := fun i hi => by
      rw [← hx i hi, ← hy i hi]
      exact hbits i hi
    constructor
    · intro i hi
      apply BitVec.eq_of_getLsbD_eq
      intro p hp
      rw [getLsbD_byte x i hp, getLsbD_byte y i hp]
      exact hbit _ (by omega)
    · split
      · rw [decide_eq_true_eq]
        apply BitVec.eq_of_getLsbD_eq
        intro p hp
        rw [BitVec.getLsbD_and, BitVec.getLsbD_and]
        cases hmask : (partialMask (minBits x y % 8)).getLsbD p with
        | true =>
            have hlt := lt_of_partialMask (Nat.mod_lt _ (by decide)) hp hmask
            rw [getLsbD_byte x _ hp, getLsbD_byte y _ hp, hbit _ (by omega)]
        | false => rw [Bool.false_and, Bool.false_and]
      · rfl

/-! ## When the operators do what they should -/

theorem bitwise_and : Bitwise (· &&& ·) Bool.and := fun _ _ _ _ => BitVec.getLsbD_and

theorem bitwise_or : Bitwise (· ||| ·) Bool.or := fun _ _ _ _ => BitVec.getLsbD_or

theorem bitwise_xor : Bitwise (· ^^^ ·) Bool.xor := fun _ _ _ _ => BitVec.getLsbD_xor

/-- With clean operands the mask takes nothing away that is in the range. -/
theorem Clean.masked_bit (hclean : Clean x y) {i : ℕ} (hlow : 8 * (minBits x y / 8) ≤ i)
    (hi : i < minBits x y)
    (hmask : (partialMask (minBits x y % 8)).getLsbD (i % 8) = false) :
    x.bit i = false ∧ y.bit i = false := by
  have hplace : 8 * (minBits x y / 8) + i % 8 = i := by omega
  have hfalse := hclean.masked (i % 8) (by omega) hmask
  rw [hplace, getBit_eq_bit x (hi.trans_le (min_le_left _ _)),
    getBit_eq_bit y (hi.trans_le (min_le_right _ _))] at hfalse
  exact hfalse

/-- Assignments to a clean left operand. -/
theorem Clean.assigns (hclean : Clean x y) {op : BitVec 8 → BitVec 8 → BitVec 8}
    {bop : Bool → Bool → Bool} (hop : Bitwise op bop)
    {last : BitVec 8 → BitVec 8 → BitVec 8 → BitVec 8} (blast : Bool → Bool → Bool → Bool)
    (hlast : ∀ (m a b : BitVec 8) (p : ℕ), p < 8 →
      (last m a b).getLsbD p = blast (m.getLsbD p) (a.getLsbD p) (b.getLsbD p))
    (hmasked : ∀ a b, blast true a b = bop a b)
    (hzero : blast false false false = bop false false)
    (hkept : ∀ b, blast false false b = false) :
    Assigns bop x y (combineAssign op last x y) := by
  refine (assigns_iff hop blast hlast hclean.tight).mpr ⟨?_, ?_⟩
  · intro i hlow hi
    cases hmask : (partialMask (minBits x y % 8)).getLsbD (i % 8) with
    | true => exact hmasked _ _
    | false =>
        obtain ⟨hxbit, hybit⟩ := hclean.masked_bit hlow hi hmask
        rw [hxbit, hybit, hzero]
  · intro hrest i hle hi hin
    have hxbit := hclean.rest hrest i hle hi
    rw [getBit_eq_bit x hin] at hxbit
    rw [hxbit, hkept]

/-- The operators do what they should if and only if their operands are clean. -/
theorem operators_meet_iff (x y : BitArray) : Meets x y ↔ Clean x y := by
  constructor
  · intro hmeets
    obtain ⟨htight, hmasked⟩ := (combines_iff bitwise_or).mp hmeets.or
    have hassign := (assigns_iff bitwise_xor (fun m a b => m && Bool.xor a b)
      (fun m a b p _ => by rw [BitVec.getLsbD_and, BitVec.getLsbD_xor]) htight).mp hmeets.xorAssign
    refine ⟨htight, ?_, ?_⟩
    · intro p hp hmask
      exact Bool.or_eq_false_iff.mp (hmasked p hp hmask)
    · intro hrest i hle hi
      by_cases hin : i < x.lenBits
      · rw [getBit_eq_bit x hin]
        exact (hassign.2 hrest i hle hi hin).symm
      · exact if_pos (not_lt.mp hin)
  · intro hclean
    have hcombines : ∀ {op : BitVec 8 → BitVec 8 → BitVec 8} {bop : Bool → Bool → Bool},
        Bitwise op bop → bop false false = false → Combines bop x y (combine op x y) := by
      intro op bop hop hzero
      refine (combines_iff hop).mpr ⟨hclean.tight, ?_⟩
      intro p hp hmask
      obtain ⟨hxbit, hybit⟩ := hclean.masked p hp hmask
      rw [hxbit, hybit, hzero]
    exact {
      and := hcombines bitwise_and rfl
      or := hcombines bitwise_or rfl
      xor := hcombines bitwise_xor rfl
      andAssign := hclean.assigns bitwise_and (fun m a b => a && (m && b))
        (fun m a b p _ => by rw [BitVec.getLsbD_and, BitVec.getLsbD_and])
        (by decide) (by decide) (by decide)
      orAssign := hclean.assigns bitwise_or (fun m a b => a || (m && b))
        (fun m a b p _ => by rw [BitVec.getLsbD_or, BitVec.getLsbD_and])
        (by decide) (by decide) (by decide)
      xorAssign := hclean.assigns bitwise_xor (fun m a b => m && Bool.xor a b)
        (fun m a b p _ => by rw [BitVec.getLsbD_and, BitVec.getLsbD_xor])
        (by decide) (by decide) (by decide)
      equal := equal_iff hclean }

/-- One bit, which is set: `x & x` has it cleared, because the mask for one bit is empty. -/
theorem not_meets_oneBit :
    ¬Meets ((new 1 (by decide)).setBit 0 true) ((new 1 (by decide)).setBit 0 true) := by
  intro hmeets
  obtain ⟨r, hr, _, hbits⟩ := hmeets.and
  have hcleared : (and ((new 1 (by decide)).setBit 0 true)
      ((new 1 (by decide)).setBit 0 true)).map (fun r => r.getBit 0) = some false := by
    decide +kernel
  rw [hr, Option.map_some, Option.some_inj, hbits 0 (by decide)] at hcleared
  revert hcleared
  decide

end BitArray

end Nidas.Util
