import Mathlib.Data.List.Basic
import Nidas.Lib.Loops
import Nidas.Lib.NumberText

/-!
# Backslash sequences

`addBackslashSequences` writes the bytes of a string that cannot be printed as a backslash with a
letter, or with `x` and two hexadecimal digits.  `replaceBackslashSequences` replaces such sequences
by the bytes that they stand for, in place; it also knows octal numbers of three digits.

## Strategy

The decoder goes on behind the byte that it has put in place of a sequence, so what it has decoded
is never read again.  For each byte, what the encoder writes is a byte that is no backslash, or a
sequence that the decoder takes as a whole, whatever follows (`addByte_cases`); with that, the two
go on in step (`ends_encoded`).  The decoder ends on every string, because in each round the part of
the string that it has not seen gets shorter.
-/

namespace Nidas.Util

/-- The bytes of a text in the program. -/
def bytesOf (text : String) : List UInt8 := text.toList.map Char.toUInt8

/-- A backslash -/
def backslash : UInt8 := 0x5c

/-- `string::find`, of a byte from an index on -/
def findFrom (c : UInt8) (res : List UInt8) (ic : ℕ) : Option ℕ :=
  ((res.drop ic).findIdx? (· == c)).map (ic + ·)

/-- `string::erase` -/
def erase (res : List UInt8) (pos len : ℕ) : List UInt8 := res.take pos ++ res.drop (pos + len)

/-- `string::substr` -/
def substr (res : List UInt8) (pos len : ℕ) : List UInt8 := (res.drop pos).take len

/-- The byte that a letter behind a backslash stands for. -/
def letterOf (c : UInt8) : Option UInt8 :=
  match Char.ofUInt8 c with
  | 'e' => some 0x1b
  | 'f' => some 0x0c
  | 'n' => some 0x0a
  | 'r' => some 0x0d
  | 't' => some 0x09
  | '\\' => some 0x5c
  | _ => none

/-- A number as a byte, `(char)(value & 0xff)`. -/
def lowByte (value : ℤ) : UInt8 := UInt8.ofNat (value % 256).toNat

/-- Replace the sequence of `len` bytes behind a backslash, which is before `bs`. -/
def replaceBy (res : List UInt8) (bs len : ℕ) (c : UInt8) : List UInt8 :=
  (erase res bs len).set (bs - 1) c

/-- Replace a number of a base, of three bytes behind a backslash; its digits begin at `pos`. -/
def replaceNumber (res : List UInt8) (bs base pos len : ℕ) : List UInt8 :=
  if bs + 2 ≥ res.length then res
  else
    match Lib.extractInt base ((substr res pos len).map Char.ofUInt8) with
    | some value => replaceBy res bs 3 (lowByte value)
    | none => res

/-- The `switch` over the byte behind a backslash. -/
def replaceAt (res : List UInt8) (bs : ℕ) : List UInt8 :=
  match letterOf (res.getD bs 0) with
  | some c => replaceBy res bs 1 c
  | none =>
      match Char.ofUInt8 (res.getD bs 0) with
      | 'x' => replaceNumber res bs 16 (bs + 1) 2
      | '0' | '1' | '2' | '3' => replaceNumber res bs 8 bs 3
      | _ => res

/-- One round of `replaceBackslashSequences`. -/
def replaceRound (state : List UInt8 × ℕ) : (List UInt8 × ℕ) ⊕ List UInt8 :=
  match findFrom backslash state.1 state.2 with
  | none => .inr state.1
  | some found =>
      let bs := found + 1
      if bs = state.1.length then .inr state.1 else .inl (replaceAt state.1 bs, bs)

/-- `replaceBackslashSequences` returns a string. -/
def Replaces (str res : List UInt8) : Prop := Lib.Ends replaceRound (str, 0) res

/-- `isprint`, in the C locale -/
def isPrint (c : UInt8) : Bool := 0x20 ≤ c && c ≤ 0x7e

/-- A digit of a hexadecimal number. -/
def hexDigit (value : ℕ) : UInt8 :=
  if value < 10 then UInt8.ofNat ('0'.toNat + value) else UInt8.ofNat ('a'.toNat + (value - 10))

/-- What `addBackslashSequences` appends for a byte. -/
def addByte (c : UInt8) : List UInt8 :=
  match Char.ofUInt8 c with
  | '\x1b' => bytesOf "\\e"
  | '\x0c' => bytesOf "\\f"
  | '\n' => bytesOf "\\n"
  | '\r' => bytesOf "\\r"
  | '\t' => bytesOf "\\t"
  | '\\' => bytesOf "\\\\"
  | _ =>
      if isPrint c then [c]
      else bytesOf "\\x" ++ [hexDigit (c.toNat / 16), hexDigit (c.toNat % 16)]

/-- `addBackslashSequences` -/
def addBackslashSequences (str : List UInt8) : List UInt8 := str.flatMap addByte

/-! ## The decoder ends -/

theorem le_findFrom {c : UInt8} {res : List UInt8} {ic found : ℕ}
    (hfind : findFrom c res ic = some found) : ic ≤ found ∧ found < res.length := by
  obtain ⟨i, hi, rfl⟩ := Option.map_eq_some_iff.mp hfind
  have hlt := (List.findIdx?_eq_some_iff_getElem.mp hi).1
  rw [List.length_drop] at hlt
  omega

theorem length_erase_le (res : List UInt8) (pos len : ℕ) :
    (erase res pos len).length ≤ res.length := by
  unfold erase
  rw [List.length_append, List.length_take, List.length_drop]
  omega

theorem length_replaceBy_le (res : List UInt8) (bs len : ℕ) (c : UInt8) :
    (replaceBy res bs len c).length ≤ res.length := by
  unfold replaceBy
  rw [List.length_set]
  exact length_erase_le res bs len

theorem length_replaceNumber_le (res : List UInt8) (bs base pos len : ℕ) :
    (replaceNumber res bs base pos len).length ≤ res.length := by
  unfold replaceNumber
  split
  · exact Nat.le_refl _
  · split
    · exact length_replaceBy_le res bs 3 _
    · exact Nat.le_refl _

theorem length_replaceAt_le (res : List UInt8) (bs : ℕ) :
    (replaceAt res bs).length ≤ res.length := by
  unfold replaceAt
  split
  · exact length_replaceBy_le res bs 1 _
  · split
    · exact length_replaceNumber_le res bs 16 _ 2
    all_goals first
      | exact length_replaceNumber_le res bs 8 bs 3
      | exact Nat.le_refl _

theorem replaces_total (str : List UInt8) : ∃ res, Replaces str res := by
  refine @Lib.ends_of_measure _ _ replaceRound (fun _ => True)
    (fun state => state.1.length - state.2) ?_ (str, 0) trivial
  intro state next _ hround
  refine ⟨trivial, ?_⟩
  unfold replaceRound at hround
  split at hround
  · cases hround
  · rename_i found hfind
    obtain ⟨hle, hlt⟩ := le_findFrom hfind
    dsimp only at hround
    split at hround
    · cases hround
    · cases hround
      have hlength := length_replaceAt_le state.1 (found + 1)
      dsimp only
      omega

/-! ## One byte -/

/-- The sequence of one byte is a letter that stands for it, or a number that is its value. -/
def IsCodeOf (c : UInt8) : List UInt8 → Bool
  | [b] => b == c && b != backslash
  | [b, letter] => b == backslash && letterOf letter == some c
  | [b, x, high, low] =>
      b == backslash && letterOf x == none && Char.ofUInt8 x == 'x' &&
        Lib.extractInt 16 [Char.ofUInt8 high, Char.ofUInt8 low] == some (c.toNat : ℤ)
  | _ => false

theorem isCodeOf_addByte (c : UInt8) : IsCodeOf c (addByte c) = true := by
  have hall : ∀ n < 256, IsCodeOf (UInt8.ofNat n) (addByte (UInt8.ofNat n)) = true := by
    decide +kernel
  have hc := hall c.toNat c.toNat_lt
  rwa [UInt8.ofNat_toNat] at hc

theorem lowByte_toNat (c : UInt8) : lowByte (c.toNat : ℤ) = c := by
  have hlt := c.toNat_lt
  unfold lowByte
  have hmod : ((c.toNat : ℤ) % 256).toNat = c.toNat := by omega
  rw [hmod, UInt8.ofNat_toNat]

/-! ## The decoder on encoded bytes -/

section

variable (done tail : List UInt8)

/-- A byte that is no backslash is passed over. -/
theorem replaceRound_skip {c : UInt8} (hc : (c != backslash) = true) :
    replaceRound (done ++ c :: tail, done.length)
      = replaceRound (done ++ c :: tail, (done ++ [c]).length) := by
  have hfind : findFrom backslash (done ++ c :: tail) done.length
      = findFrom backslash (done ++ c :: tail) (done ++ [c]).length := by
    have hnot : (c == backslash) = false := by simpa using hc
    have hdrop : (done ++ c :: tail).drop (done ++ [c]).length = tail := by
      have hsplit : done ++ c :: tail = (done ++ [c]) ++ tail := by simp
      rw [hsplit, List.drop_left]
    unfold findFrom
    rw [hdrop, List.drop_left, List.findIdx?_cons, hnot, List.length_append, List.length_singleton]
    cases tail.findIdx? (· == backslash) with
    | none => rfl
    | some i =>
        show some (done.length + (i + 1)) = some (done.length + 1 + i)
        rw [Nat.add_assoc, Nat.add_comm 1 i]
  unfold replaceRound
  rw [hfind]

/-- At a backslash that something follows, the decoder replaces what follows. -/
theorem replaceRound_backslash (c : UInt8) :
    replaceRound (done ++ backslash :: c :: tail, done.length)
      = .inl (replaceAt (done ++ backslash :: c :: tail) (done.length + 1), done.length + 1) := by
  have hfind : findFrom backslash (done ++ backslash :: c :: tail) done.length
      = some done.length := by
    unfold findFrom
    rw [List.drop_left, List.findIdx?_cons]
    rfl
  unfold replaceRound
  rw [hfind]
  apply if_neg
  rw [List.length_append, List.length_cons, List.length_cons]
  omega

theorem replaceBy_append (code : List UInt8) (c : UInt8) :
    replaceBy (done ++ backslash :: code ++ tail) (done.length + 1) code.length c
      = done ++ c :: tail := by
  have hsplit : done ++ backslash :: code ++ tail = (done ++ [backslash]) ++ (code ++ tail) := by
    simp
  have hlength : done.length + 1 = (done ++ [backslash]).length := by simp
  unfold replaceBy erase
  rw [hsplit, hlength, List.take_left, ← List.drop_drop, List.drop_left, List.drop_left,
    ← hlength, Nat.add_sub_cancel, List.append_assoc, List.singleton_append,
    List.set_append_right _ _ (Nat.le_refl _), Nat.sub_self]
  rfl

theorem getD_append_backslash (c : UInt8) (rest : List UInt8) :
    (done ++ backslash :: c :: rest).getD (done.length + 1) 0 = c := by
  rw [List.getD_eq_getElem?_getD, List.getElem?_append_right (by omega), Nat.add_sub_cancel_left]
  rfl

/-- The decoder puts a byte in place of its code and goes on behind it. -/
theorem ends_code {c : UInt8} {code : List UInt8} (hcode : IsCodeOf c code = true)
    {res : List UInt8}
    (hends : Lib.Ends replaceRound (done ++ c :: tail, (done ++ [c]).length) res) :
    Lib.Ends replaceRound (done ++ code ++ tail, done.length) res := by
  have hnext : (done ++ [c]).length = done.length + 1 := by simp
  match code, hcode with
  | [b], hcode =>
      rw [IsCodeOf, Bool.and_eq_true, beq_iff_eq] at hcode
      obtain ⟨rfl, hnot⟩ := hcode
      rw [List.append_assoc, List.singleton_append]
      exact .congr (replaceRound_skip done tail hnot) hends
  | [b, letter], hcode =>
      rw [IsCodeOf, Bool.and_eq_true, beq_iff_eq, beq_iff_eq] at hcode
      obtain ⟨rfl, hletter⟩ := hcode
      have hassoc : done ++ [backslash, letter] ++ tail = done ++ backslash :: letter :: tail := by
        simp
      have hround := replaceRound_backslash done tail letter
      have hreplace : replaceAt (done ++ backslash :: letter :: tail) (done.length + 1)
          = done ++ c :: tail := by
        unfold replaceAt
        rw [getD_append_backslash, hletter, ← hassoc]
        exact replaceBy_append done tail [letter] c
      rw [hreplace] at hround
      rw [hassoc]
      rw [hnext] at hends
      exact .goOn hround hends
  | [b, x, high, low], hcode =>
      simp only [IsCodeOf, Bool.and_eq_true, beq_iff_eq] at hcode
      obtain ⟨⟨⟨rfl, hletter⟩, hx⟩, hvalue⟩ := hcode
      have hassoc : done ++ [backslash, x, high, low] ++ tail
          = done ++ backslash :: x :: (high :: low :: tail) := by
        simp
      have hround := replaceRound_backslash done (high :: low :: tail) x
      have hdigits : substr (done ++ backslash :: x :: high :: low :: tail) (done.length + 1 + 1) 2
          = [high, low] := by
        unfold substr
        rw [← List.drop_drop, ← List.drop_drop, List.drop_left]
        rfl
      have hlength : ¬(done.length + 1 + 2
          ≥ (done ++ backslash :: x :: high :: low :: tail).length) := by
        simp only [List.length_append, List.length_cons]
        omega
      have hnumber : replaceNumber (done ++ backslash :: x :: high :: low :: tail)
          (done.length + 1) 16 (done.length + 1 + 1) 2 = done ++ c :: tail := by
        unfold replaceNumber
        rw [if_neg hlength, hdigits, List.map_cons, List.map_cons, List.map_nil, hvalue]
        dsimp only
        rw [lowByte_toNat, ← hassoc]
        exact replaceBy_append done tail [x, high, low] c
      have hreplace : replaceAt (done ++ backslash :: x :: high :: low :: tail) (done.length + 1)
          = done ++ c :: tail := by
        unfold replaceAt
        rw [getD_append_backslash, hletter]
        dsimp only
        rw [hx]
        exact hnumber
      rw [hreplace] at hround
      rw [hassoc]
      rw [hnext] at hends
      exact .goOn hround hends

end

theorem ends_encoded (str : List UInt8) :
    ∀ done, Lib.Ends replaceRound (done ++ addBackslashSequences str, done.length)
      (done ++ str) := by
  induction str with
  | nil =>
      intro done
      apply Lib.Ends.leave
      have hfind : findFrom backslash (done ++ addBackslashSequences []) done.length = none := by
        unfold findFrom
        rw [List.drop_left]
        rfl
      unfold replaceRound
      rw [hfind]
      rfl
  | cons c str ih =>
      intro done
      have hencode : addBackslashSequences (c :: str) = addByte c ++ addBackslashSequences str :=
        List.flatMap_cons
      rw [hencode, ← List.append_assoc]
      apply ends_code done _ (isCodeOf_addByte c)
      have hends := ih (done ++ [c])
      rw [List.append_assoc, List.append_assoc, List.singleton_append, List.singleton_append]
        at hends
      exact hends

/-- The decoder ends on every string, and it gives back every string that has been encoded. -/
theorem replace_addBackslashSequences (str : List UInt8) :
    (∃ res, Replaces str res) ∧ ∀ res, Replaces (addBackslashSequences str) res ↔ res = str := by
  have hround : Replaces (addBackslashSequences str) str := ends_encoded str []
  refine ⟨replaces_total str, ?_⟩
  intro res
  constructor
  · intro hres
    exact hres.unique hround
  · rintro rfl
    exact hround

end Nidas.Util
