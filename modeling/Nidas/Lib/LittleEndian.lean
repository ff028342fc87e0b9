import Mathlib.Algebra.Order.Ring.Int
import Mathlib.Data.Nat.Init

/-!
# Little endian integers

A natural number as a fixed number of bytes, the lowest first, and back.  Signed
numbers go through their residue modulo a power of 256.
-/

namespace Nidas.Lib

/-- The lowest `width` bytes of a number. -/
def leBytes : ℕ → ℕ → List UInt8
  | 0, _ => []
  | width + 1, value => UInt8.ofNat (value % 256) :: leBytes width (value / 256)

/-- The number that the bytes stand for. -/
def ofLeBytes : List UInt8 → ℕ
  | [] => 0
  | byte :: rest => byte.toNat + 256 * ofLeBytes rest

/-- The signed number of the same bits. -/
def toSigned (bits value : ℕ) : ℤ :=
  if value < 2 ^ (bits - 1) then value else (value : ℤ) - 2 ^ bits

/-- The bits of a signed number. -/
def ofSigned (bits : ℕ) (value : ℤ) : ℕ :=
  (value % 2 ^ bits).toNat

@[simp] theorem length_leBytes (width value : ℕ) : (leBytes width value).length = width := by
  induction width generalizing value with
  | zero => rfl
  | succ width ih => rw [leBytes, List.length_cons, ih]

theorem ofLeBytes_leBytes (width value : ℕ) :
    ofLeBytes (leBytes width value) = value % 256 ^ width := by
  induction width generalizing value with
  | zero => rw [Nat.pow_zero, Nat.mod_one]; rfl
  | succ width ih =>
      have hbyte : (UInt8.ofNat (value % 256)).toNat = value % 256 := by simp
      rw [leBytes, ofLeBytes, ih, hbyte, Nat.pow_succ, Nat.mul_comm _ 256, Nat.mod_mul]

theorem ofLeBytes_leBytes_of_lt {width value : ℕ} (hlt : value < 256 ^ width) :
    ofLeBytes (leBytes width value) = value := by
  rw [ofLeBytes_leBytes, Nat.mod_eq_of_lt hlt]

theorem ofLeBytes_lt (bytes : List UInt8) : ofLeBytes bytes < 256 ^ bytes.length := by
  induction bytes with
  | nil => decide
  | cons byte rest ih =>
      have hbyte := byte.toNat_lt
      rw [ofLeBytes, List.length_cons, Nat.pow_succ]
      omega

theorem ofSigned_lt (bits : ℕ) (value : ℤ) : ofSigned bits value < 2 ^ bits := by
  have hpos : (0 : ℤ) < 2 ^ bits := Int.pow_pos (by decide)
  have hlt := Int.emod_lt_of_pos value hpos
  have hnonneg := Int.emod_nonneg value (ne_of_gt hpos)
  have hcast : ((2 ^ bits : ℕ) : ℤ) = 2 ^ bits := by push_cast; rfl
  unfold ofSigned
  omega

/-- A signed number that fits comes back. -/
theorem toSigned_ofSigned {bits : ℕ} {value : ℤ} (hbits : 0 < bits)
    (hmin : -2 ^ (bits - 1) ≤ value) (hmax : value < 2 ^ (bits - 1)) :
    toSigned bits (ofSigned bits value) = value := by
  have hdouble : (2 : ℤ) ^ bits = 2 * 2 ^ (bits - 1) := by
    rw [← pow_succ']
    congr 1
    omega
  have hcast : ((2 ^ (bits - 1) : ℕ) : ℤ) = 2 ^ (bits - 1) := by push_cast; rfl
  unfold toSigned ofSigned
  rw [hdouble]
  rcases lt_or_ge value 0 with hneg | hnonneg
  · have hmod : value % (2 * 2 ^ (bits - 1)) = value + 2 * 2 ^ (bits - 1) := by
      rw [← Int.add_emod_right, Int.emod_eq_of_lt (by omega) (by omega)]
    rw [hmod]
    split_ifs <;> omega
  · have hmod : value % (2 * 2 ^ (bits - 1)) = value :=
      Int.emod_eq_of_lt hnonneg (by omega)
    rw [hmod]
    split_ifs <;> omega

end Nidas.Lib
