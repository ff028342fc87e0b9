import Mathlib.Data.List.TakeWhile
import Mathlib.Order.Basic
import Mathlib.Tactic.Linarith

/-!
# Numbers in a text

What the C library reads of a number at the beginning of a text: blanks, a sign, and digits of a
base that the first of them tell: `0x` for 16, `0` for 8, and otherwise 10.  `readNumber` is the
value of these characters with the rest of the text.
-/

namespace Nidas.Lib

/-- `isspace`, in the C locale -/
def isSpace (c : Char) : Bool := c = ' ' || ('\t' ≤ c && c ≤ '\r')

/-- The value of a digit, of any base up to 36. -/
def digitValue (c : Char) : Option ℕ :=
  if '0' ≤ c ∧ c ≤ '9' then some (c.toNat - '0'.toNat)
  else if 'a' ≤ c ∧ c ≤ 'z' then some (c.toNat - 'a'.toNat + 10)
  else if 'A' ≤ c ∧ c ≤ 'Z' then some (c.toNat - 'A'.toNat + 10)
  else none

/-- A digit of a base. -/
def isDigitOf (base : ℕ) (c : Char) : Bool := (digitValue c).any (· < base)

/-- The value of some digits. -/
def valueOfDigits (base : ℕ) (digits : List Char) : ℕ :=
  digits.foldl (fun value c => value * base + (digitValue c).getD 0) 0

/-- The sign, and what is behind it. -/
def takeSign : List Char → Bool × List Char
  | '-' :: rest => (true, rest)
  | '+' :: rest => (false, rest)
  | text => (false, text)

/-- The base that the first digits tell, and the digits with what is behind them. -/
def takeBase : List Char → ℕ × List Char
  | '0' :: 'x' :: digit :: rest =>
      if isDigitOf 16 digit then (16, digit :: rest) else (8, '0' :: 'x' :: digit :: rest)
  | '0' :: 'X' :: digit :: rest =>
      if isDigitOf 16 digit then (16, digit :: rest) else (8, '0' :: 'X' :: digit :: rest)
  | '0' :: rest => (8, '0' :: rest)
  | text => (10, text)

/-- The number at the beginning of a text, and the rest of the text. -/
def readNumber (text : List Char) : Option (ℤ × List Char) :=
  let signed := takeSign (text.dropWhile isSpace)
  let based := takeBase signed.2
  let digits := based.2.takeWhile (isDigitOf based.1)
  if digits = [] then none
  else
    let value : ℤ := valueOfDigits based.1 digits
    some (if signed.1 then -value else value, based.2.dropWhile (isDigitOf based.1))

/-- The mark of a hexadecimal number, which streams that read such numbers skip. -/
def dropHexMark : List Char → List Char
  | '0' :: 'x' :: rest => rest
  | '0' :: 'X' :: rest => rest
  | text => text

/-- What a stream that is set to a base extracts from the beginning of a text. -/
def extractInt (base : ℕ) (text : List Char) : Option ℤ :=
  let signed := takeSign (text.dropWhile isSpace)
  let body := if base = 16 then dropHexMark signed.2 else signed.2
  let digits := body.takeWhile (isDigitOf base)
  if digits = [] then none
  else
    let value : ℤ := valueOfDigits base digits
    some (if signed.1 then -value else value)

/-- A character that is not a digit is not in a text that is digits to its end, nor in the prefix of
the base. -/
theorem notMem_of_takeBase {c : Char} (hdigit : ∀ base, isDigitOf base c = false)
    {text : List Char}
    (hrest : (takeBase text).2.dropWhile (isDigitOf (takeBase text).1) = []) : c ∉ text := by
  have hdigits : c ∉ (takeBase text).2 := by
    intro hmem
    have hall := List.dropWhile_eq_nil_iff.mp hrest c hmem
    rw [hdigit] at hall
    cases hall
  have hmark : ∀ other, isDigitOf 36 other = true → c ≠ other := by
    rintro other hother rfl
    rw [hdigit] at hother
    cases hother
  unfold takeBase at hdigits
  split at hdigits
  · split at hdigits
    · simp only [List.mem_cons, not_or] at hdigits ⊢
      exact ⟨hmark '0' rfl, hmark 'x' rfl, hdigits⟩
    · exact hdigits
  · split at hdigits
    · simp only [List.mem_cons, not_or] at hdigits ⊢
      exact ⟨hmark '0' rfl, hmark 'X' rfl, hdigits⟩
    · exact hdigits
  · exact hdigits
  · exact hdigits

/-- A dash in a text that is one number is a sign: there are only blanks in front of it. -/
theorem isSpace_of_readNumber {first rest : List Char} {value : ℤ}
    (hread : readNumber (first ++ '-' :: rest) = some (value, [])) :
    ∀ c ∈ first, isSpace c = true := by
  obtain ⟨text, htext⟩ : ∃ text, text = first ++ '-' :: rest := ⟨_, rfl⟩
  rw [← htext] at hread
  have hblank := List.takeWhile_append_dropWhile (p := isSpace) (l := text)
  obtain ⟨body, hbody⟩ : ∃ body, body = text.dropWhile isSpace := ⟨_, rfl⟩
  -- no dash behind the sign
  have htail : '-' ∉ body.tail := by
    unfold readNumber at hread
    dsimp only at hread
    rw [← hbody] at hread
    split at hread
    · cases hread
    · have hnot : '-' ∉ _ := notMem_of_takeBase (fun _ => rfl)
        (Prod.ext_iff.mp (Option.some.inj hread)).2
      unfold takeSign at hnot
      split at hnot
      · exact hnot
      · exact hnot
      · exact fun hmem => hnot (List.mem_of_mem_tail hmem)
  rw [← hbody, htext] at hblank
  have hspaces : ∀ c ∈ (first ++ '-' :: rest).takeWhile isSpace, isSpace c = true :=
    fun c hc => List.mem_takeWhile_imp hc
  obtain ⟨more, hfirst, hmore⟩ | ⟨more, hfirst, -⟩ := List.append_eq_append_iff.mp hblank
  · cases more with
    | nil =>
        rw [List.append_nil] at hfirst
        rw [hfirst]
        exact hspaces
    | cons c more =>
        rw [hmore] at htail
        simp at htail
  · intro c hc
    apply hspaces
    rw [hfirst]
    exact List.mem_append_left _ hc

/-- Blanks are no number. -/
theorem readNumber_of_blank {text : List Char} (hblank : ∀ c ∈ text, isSpace c = true) :
    readNumber text = none := by
  unfold readNumber
  rw [List.dropWhile_eq_nil_iff.mpr hblank]
  rfl

/-- What is read to its end has no terminating character. -/
theorem nul_notMem_of_readNumber {text : List Char} {value : ℤ}
    (hread : readNumber text = some (value, [])) : '\x00' ∉ text := by
  unfold readNumber at hread
  dsimp only at hread
  split at hread
  · cases hread
  · have hnot : '\x00' ∉ _ := notMem_of_takeBase (fun _ => rfl)
      (Prod.ext_iff.mp (Option.some.inj hread)).2
    intro hmem
    rw [← List.takeWhile_append_dropWhile (p := isSpace) (l := text), List.mem_append] at hmem
    rcases hmem with hblank | hbody
    · have hspace := List.mem_takeWhile_imp hblank
      revert hspace
      decide
    · apply hnot
      unfold takeSign
      split
      · next rest heq =>
          rw [heq] at hbody
          simpa using hbody
      · next rest heq =>
          rw [heq] at hbody
          simpa using hbody
      · exact hbody

end Nidas.Lib
