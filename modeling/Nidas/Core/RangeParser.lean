import Nidas.Lib.MachineInt
import Nidas.Lib.NumberText
import Nidas.Core.SampleMatcher

/-!
# The ranges of a sample specifier

`parse_range` reads a range of ids, such as `3`, `3-10` or `*`.  `Denotes` is the grammar that is
meant, with the range of each text.

## Strategy

A dash behind the first character makes `parse_range` read two numbers, and `strtol` accepts a minus
sign and blanks in front of it.  So three kinds of texts are not treated as the grammar has it
(`Slip`): pairs with a negative first number, which are accepted; numbers with blanks in front of
a minus sign, which are rejected; and, since the number that is read is a `long` and ends with the
first NUL, texts with a NUL and numbers that do not fit into an `int`.  All others are
(`treated_iff_not_slip`).  What `strtol` reads to the end has no dash but its sign, so that no
text has two meanings.
-/

namespace Nidas.Core

open Lib

/-! ## The parser -/

/-- `LONG_MAX`, for the numbers that `strtol` returns without an error -/
def longLimit : ℤ := 2 ^ 63

/-- What `strtol` with base 0 reads to the end of a C string: a number that is not out of the range
of a `long`.  Nothing is read of the empty string, whose value is 0. -/
def readLong (cstr : List Char) : Option ℤ :=
  match readNumber cstr with
  | some (value, []) => if -longLimit ≤ value ∧ value < longLimit then some value else none
  | some (_, _ :: _) => none
  | none => if cstr = [] then some 0 else none

/-- `c_str`, up to the first NUL -/
def cString (text : List Char) : List Char := text.takeWhile (· ≠ '\x00')

/-- `int_from_string` -/
def intFromString (text : List Char) : Option ℤ :=
  if text = [] then none else (readLong (cString text)).map toInt32

/-- The parts in front of the first dash that is not the first character, and behind it. -/
def splitAtDash : List Char → Option (List Char × List Char)
  | [] => none
  | c :: rest =>
      match rest.dropWhile (· ≠ '-') with
      | [] => none
      | _ :: second => some (c :: rest.takeWhile (· ≠ '-'), second)

/-- `parse_range` -/
def parseRange (rngstr : List Char) : Option IdRange :=
  match splitAtDash rngstr with
  | some (first, second) =>
      match intFromString first, intFromString second with
      | some rngid1, some rngid2 => if rngid1 > rngid2 then none else some ⟨rngid1, rngid2⟩
      | _, _ => none
  | none =>
      if rngstr = ['*'] ∨ rngstr = ['/'] then some ⟨matchAll, matchAll⟩
      else if rngstr = ['.'] then some ⟨matchFirst, matchFirst⟩
      else
        match intFromString rngstr with
        | some rngid => if rngid < 0 ∧ rngid ≠ matchAll then none else some ⟨rngid, rngid⟩
        | none => none

/-! ## The grammar -/

/-- A text that `strtol` reads completely, with a value in the range of an `int`. -/
def IsLiteral (text : List Char) (value : ℤ) : Prop :=
  readNumber text = some (value, []) ∧ -2 ^ 31 ≤ value ∧ value < 2 ^ 31

/-- The ids of a range, or every id. -/
inductive Denotes : List Char → Option (ℤ × ℤ) → Prop
  | star : Denotes ['*'] none
  | slash : Denotes ['/'] none
  | all {text : List Char} (htext : IsLiteral text (-1)) : Denotes text none
  | single {text : List Char} {value : ℤ} (htext : IsLiteral text value) (hvalue : 0 ≤ value) :
      Denotes text (some (value, value))
  | range {first second : List Char} {low high : ℤ} (hfirst : IsLiteral first low)
      (hsecond : IsLiteral second high) (hlow : 0 ≤ low) (hle : low ≤ high) :
      Denotes (first ++ '-' :: second) (some (low, high))

/-- The texts of the grammar. -/
def InGrammar (text : List Char) : Prop := text = ['.'] ∨ ∃ ids, Denotes text ids

/-- An id is one of those of a range. -/
def Admitted : Option (ℤ × ℤ) → ℕ → Prop
  | none, _ => True
  | some (low, high), id => low ≤ id ∧ id ≤ high

/-- **What is expected of a text**: it is accepted if and only if it is of the grammar, and then the
range, in the place of the DSM ids or of the sample ids, matches the ids that it denotes. -/
structure Treated (text : List Char) : Prop where
  accepted : (∃ range, parseRange text = some range) ↔ InGrammar text
  dsms : ∀ range ids, parseRange text = some range → Denotes text ids →
    ∀ (rm : RangeMatcher) (dsmid sid : ℕ), rm.sids.excludes sid = false →
      (({ rm with dsms := range }.matchIds dsmid sid).1 = true ↔ Admitted ids dsmid)
  sids : ∀ range ids, parseRange text = some range → Denotes text ids →
    ∀ (rm : RangeMatcher) (dsmid sid : ℕ),
      (rm.dsms.first = matchFirst ∨ rm.dsms.excludes dsmid = false) →
      (({ rm with sids := range }.matchIds dsmid sid).1 = true ↔ Admitted ids sid)

/-- A text that is read as a number, which is stored in an `int`. -/
def ReadsAs (text : List Char) (value : ℤ) : Prop :=
  text ≠ [] ∧ readLong (cString text) = some value

/-- The kinds of texts that are not treated as the grammar has it. -/
inductive Slip : List Char → Prop
  /-- Two numbers, of which the first one is negative, or one has a NUL or does not fit. -/
  | pair {first second : List Char} {low high : ℤ} (hne : first ≠ []) (hdash : '-' ∉ first.tail)
      (hfirst : ReadsAs first low) (hsecond : ReadsAs second high)
      (hle : toInt32 low ≤ toInt32 high)
      (hslip : low < 0 ∨ ¬IsLiteral first low ∨ ¬IsLiteral second high) :
      Slip (first ++ '-' :: second)
  /-- One number that has a NUL or does not fit. -/
  | single {text : List Char} {value : ℤ} (hdash : '-' ∉ text.tail) (htext : ReadsAs text value)
      (hvalue : toInt32 value = matchAll ∨ 0 ≤ toInt32 value) (hslip : ¬IsLiteral text value) :
      Slip text
  /-- Blanks in front of a minus sign. -/
  | blank {first rest : List Char} (hne : first ≠ []) (hblank : ∀ c ∈ first, isSpace c = true)
      (hgrammar : InGrammar (first ++ '-' :: rest)) : Slip (first ++ '-' :: rest)

/-! ## Numbers -/

theorem cString_of_notMem {text : List Char} (hnul : '\x00' ∉ text) : cString text = text := by
  unfold cString
  rw [List.takeWhile_eq_self_iff]
  intro c hc
  rw [decide_eq_true_iff]
  rintro rfl
  exact hnul hc

theorem readLong_of_readNumber {cstr : List Char} {value : ℤ}
    (hread : readNumber cstr = some (value, [])) (hlow : -longLimit ≤ value)
    (hhigh : value < longLimit) : readLong cstr = some value := by
  unfold readLong
  rw [hread]
  dsimp only
  rw [if_pos ⟨hlow, hhigh⟩]

namespace IsLiteral

variable {text : List Char} {value : ℤ} (hliteral : IsLiteral text value)

include hliteral

theorem ne_nil : text ≠ [] := by
  rintro rfl
  cases hliteral.1

theorem readsAs : ReadsAs text value := by
  have hlow := hliteral.2.1
  have hhigh := hliteral.2.2
  refine ⟨hliteral.ne_nil, ?_⟩
  rw [cString_of_notMem (nul_notMem_of_readNumber hliteral.1)]
  exact readLong_of_readNumber hliteral.1 (by unfold longLimit; omega) (by unfold longLimit; omega)

theorem toInt32_eq : toInt32 value = value := toInt32_of_range hliteral.2.1 hliteral.2.2

end IsLiteral

theorem intFromString_eq_some_iff {text : List Char} {num : ℤ} :
    intFromString text = some num ↔ ∃ value, ReadsAs text value ∧ toInt32 value = num := by
  unfold intFromString ReadsAs
  split
  · next hnil => simp [hnil]
  · next hne => simp [hne]

theorem ReadsAs.unique {text : List Char} {value other : ℤ} (hvalue : ReadsAs text value)
    (hother : ReadsAs text other) : value = other :=
  Option.some.inj (hvalue.2.symm.trans hother.2)

/-- Blanks are not read as a number. -/
theorem not_readsAs_blank {text : List Char} (hne : text ≠ [])
    (hblank : ∀ c ∈ text, isSpace c = true) {value : ℤ} : ¬ReadsAs text value := by
  rintro ⟨-, hread⟩
  have hnul : '\x00' ∉ text := by
    intro hmem
    have hspace := hblank _ hmem
    revert hspace
    decide
  rw [cString_of_notMem hnul] at hread
  unfold readLong at hread
  rw [readNumber_of_blank hblank] at hread
  dsimp only at hread
  rw [if_neg hne] at hread
  cases hread

/-! ## The dash -/

theorem splitAtDash_append {first second : List Char} (hne : first ≠ [])
    (hdash : '-' ∉ first.tail) : splitAtDash (first ++ '-' :: second) = some (first, second) := by
  cases first with
  | nil => exact absurd rfl hne
  | cons c rest =>
      have hrest : ∀ other ∈ rest, decide (other ≠ '-') = true := by
        intro other hother
        rw [decide_eq_true_iff]
        rintro rfl
        exact hdash hother
      rw [List.cons_append, splitAtDash, List.dropWhile_append_of_pos hrest,
        List.takeWhile_append_of_pos hrest]
      simp

theorem splitAtDash_eq_none {text : List Char} (hdash : '-' ∉ text.tail) :
    splitAtDash text = none := by
  cases text with
  | nil => rfl
  | cons c rest =>
      have hrest : rest.dropWhile (· ≠ '-') = [] := by
        rw [List.dropWhile_eq_nil_iff]
        intro other hother
        rw [decide_eq_true_iff]
        rintro rfl
        exact hdash hother
      rw [splitAtDash, hrest]

/-- Every text has a dash behind its first character, or has none. -/
theorem dash_cases (text : List Char) :
    '-' ∉ text.tail ∨ ∃ first second, text = first ++ '-' :: second ∧ first ≠ [] ∧
      '-' ∉ first.tail := by
  by_cases hdash : '-' ∈ text.tail
  · right
    cases text with
    | nil => cases hdash
    | cons c rest =>
        obtain ⟨before, after, hrest, hbefore⟩ := List.eq_append_cons_of_mem hdash
        rw [List.tail_cons] at hrest
        exact ⟨c :: before, after, by rw [hrest]; rfl, by simp, hbefore⟩
  · exact .inl hdash

/-- Another way to split at a dash splits at a later one. -/
theorem split_cases {first second first' second' : List Char} (hne : first' ≠ [])
    (hdash : '-' ∉ first.tail) (heq : first ++ '-' :: second = first' ++ '-' :: second') :
    first = first' ∧ second = second' ∨ ∃ more, first' = first ++ '-' :: more := by
  obtain ⟨more, hfirst, hmore⟩ | ⟨more, hfirst, hmore⟩ := List.append_eq_append_iff.mp heq
  · cases more with
    | nil => exact .inl ⟨by simpa using hfirst.symm, by simpa using hmore⟩
    | cons c more =>
        right
        obtain ⟨rfl, -⟩ := List.cons.inj hmore
        exact ⟨more, hfirst⟩
  · cases more with
    | nil => exact .inl ⟨by simpa using hfirst, by simpa using hmore.symm⟩
    | cons c more =>
        -- the dash would be in the first part
        obtain ⟨rfl, -⟩ := List.cons.inj hmore
        cases first' with
        | nil => exact absurd rfl hne
        | cons head tail =>
            rw [hfirst] at hdash
            simp at hdash

/-! ## The parser on the grammar -/

/-- The range that stands for some ids. -/
def rangeOf : Option (ℤ × ℤ) → IdRange
  | none => ⟨matchAll, matchAll⟩
  | some (low, high) => ⟨low, high⟩

section

variable {first second text : List Char} {low high value : ℤ}

theorem intFromString_of_readsAs (htext : ReadsAs text value) :
    intFromString text = some (toInt32 value) := intFromString_eq_some_iff.mpr ⟨value, htext, rfl⟩

theorem parseRange_pair (hne : first ≠ []) (hdash : '-' ∉ first.tail)
    (hfirst : ReadsAs first low) (hsecond : ReadsAs second high)
    (hle : toInt32 low ≤ toInt32 high) :
    parseRange (first ++ '-' :: second) = some ⟨toInt32 low, toInt32 high⟩ := by
  unfold parseRange
  rw [splitAtDash_append hne hdash]
  dsimp only
  rw [intFromString_of_readsAs hfirst, intFromString_of_readsAs hsecond]
  dsimp only
  rw [if_neg (by omega)]

/-- A number is no wildcard. -/
theorem ReadsAs.ne_wildcard (htext : ReadsAs text value) :
    text ≠ ['*'] ∧ text ≠ ['/'] ∧ text ≠ ['.'] := by
  refine ⟨?_, ?_, ?_⟩ <;> rintro rfl <;> cases htext.2

theorem parseRange_single (hdash : '-' ∉ text.tail) (htext : ReadsAs text value)
    (hvalue : toInt32 value = matchAll ∨ 0 ≤ toInt32 value) :
    parseRange text = some ⟨toInt32 value, toInt32 value⟩ := by
  obtain ⟨hstar, hslash, hdot⟩ := htext.ne_wildcard
  unfold parseRange
  rw [splitAtDash_eq_none hdash]
  dsimp only
  rw [if_neg (not_or.mpr ⟨hstar, hslash⟩), if_neg hdot, intFromString_of_readsAs htext]
  dsimp only
  rw [if_neg ?_]
  rintro ⟨hneg, hne⟩
  rcases hvalue with hall | hnonneg
  · exact hne hall
  · omega

/-- What is accepted. -/
theorem parseRange_cases {range : IdRange} (hparse : parseRange text = some range) :
    text = ['*'] ∨ text = ['/'] ∨ text = ['.'] ∨
      (∃ value, '-' ∉ text.tail ∧ ReadsAs text value ∧
        (toInt32 value = matchAll ∨ 0 ≤ toInt32 value)) ∨
      ∃ first second low high, text = first ++ '-' :: second ∧ first ≠ [] ∧ '-' ∉ first.tail ∧
        ReadsAs first low ∧ ReadsAs second high ∧ toInt32 low ≤ toInt32 high := by
  unfold parseRange at hparse
  obtain hdash | ⟨first, second, rfl, hne, hdash⟩ := dash_cases text
  · rw [splitAtDash_eq_none hdash] at hparse
    dsimp only at hparse
    split at hparse
    · next hwild =>
        rcases hwild with hstar | hslash
        · exact .inl hstar
        · exact .inr (.inl hslash)
    · split at hparse
      · next hdot => exact .inr (.inr (.inl hdot))
      · split at hparse
        · next num hnum =>
            split at hparse
            · cases hparse
            · next hvalid =>
                obtain ⟨value, hvalue, rfl⟩ := intFromString_eq_some_iff.mp hnum
                refine .inr (.inr (.inr (.inl ⟨value, hdash, hvalue, ?_⟩)))
                by_cases hall : toInt32 value = matchAll
                · exact .inl hall
                · right
                  by_contra hneg
                  exact hvalid ⟨not_le.mp hneg, hall⟩
        · cases hparse
  · rw [splitAtDash_append hne hdash] at hparse
    dsimp only at hparse
    split at hparse
    · next a b ha hb =>
        obtain ⟨low, hlow, rfl⟩ := intFromString_eq_some_iff.mp ha
        obtain ⟨high, hhigh, rfl⟩ := intFromString_eq_some_iff.mp hb
        split at hparse
        · cases hparse
        · next hle =>
            exact .inr (.inr (.inr (.inr
              ⟨first, second, low, high, rfl, hne, hdash, hlow, hhigh, not_lt.mp hle⟩)))
    · cases hparse

/-- A literal with a dash behind its first character has blanks and a minus sign. -/
theorem IsLiteral.dash_notMem (htext : IsLiteral text value) (hslip : ¬Slip text)
    (hgrammar : InGrammar text) : '-' ∉ text.tail := by
  obtain hdash | ⟨first, second, rfl, hne, -⟩ := dash_cases text
  · exact hdash
  · exact absurd (.blank hne (isSpace_of_readNumber htext.1) hgrammar) hslip

/-- **What the grammar has is accepted**, with the range that is meant. -/
theorem parseRange_of_denotes (hslip : ¬Slip text) {ids : Option (ℤ × ℤ)}
    (hdenotes : Denotes text ids) : parseRange text = some (rangeOf ids) := by
  have hgrammar : InGrammar text := .inr ⟨ids, hdenotes⟩
  cases hdenotes with
  | star => rfl
  | slash => rfl
  | all htext =>
      have hparse := parseRange_single (htext.dash_notMem hslip hgrammar) htext.readsAs
        (.inl htext.toInt32_eq)
      rwa [htext.toInt32_eq] at hparse
  | single htext hvalue =>
      have hparse := parseRange_single (htext.dash_notMem hslip hgrammar) htext.readsAs
        (.inr (by rwa [htext.toInt32_eq]))
      rwa [htext.toInt32_eq] at hparse
  | @range first second low high hfirst hsecond hlow hle =>
      have hdash : '-' ∉ first.tail := by
        obtain hdash | ⟨blank, rest, rfl, hne, -⟩ := dash_cases first
        · exact hdash
        · -- the first number has blanks in front of its sign
          refine absurd (?_ : Slip _) hslip
          rw [List.append_assoc, List.cons_append] at hgrammar ⊢
          exact .blank hne (isSpace_of_readNumber hfirst.1) hgrammar
      have hparse := parseRange_pair hfirst.ne_nil hdash hfirst.readsAs hsecond.readsAs
        (by rwa [hfirst.toInt32_eq, hsecond.toInt32_eq])
      rwa [hfirst.toInt32_eq, hsecond.toInt32_eq] at hparse

/-- **What is accepted is of the grammar.** -/
theorem inGrammar_of_parseRange (hslip : ¬Slip text) {range : IdRange}
    (hparse : parseRange text = some range) : InGrammar text := by
  obtain rfl | rfl | rfl | ⟨value, hdash, hread, hvalue⟩ |
    ⟨first, second, low, high, rfl, hne, hdash, hfirst, hsecond, hle⟩ := parseRange_cases hparse
  · exact .inr ⟨none, .star⟩
  · exact .inr ⟨none, .slash⟩
  · exact .inl rfl
  · have hliteral : IsLiteral text value := by
      by_contra hnot
      exact hslip (.single hdash hread hvalue hnot)
    rw [hliteral.toInt32_eq] at hvalue
    rcases hvalue with rfl | hnonneg
    · exact .inr ⟨none, .all hliteral⟩
    · exact .inr ⟨_, .single hliteral hnonneg⟩
  · have hliterals : ¬(low < 0 ∨ ¬IsLiteral first low ∨ ¬IsLiteral second high) := fun hkind =>
      hslip (.pair hne hdash hfirst hsecond hle hkind)
    rw [not_or, not_or, not_not, not_not, not_lt] at hliterals
    obtain ⟨hlow, hfirst', hsecond'⟩ := hliterals
    rw [hfirst'.toInt32_eq, hsecond'.toInt32_eq] at hle
    exact .inr ⟨_, .range hfirst' hsecond' hlow hle⟩

end

/-! ## Matching -/

/-- The range of a text of the grammar excludes the ids that are not admitted. -/
theorem Denotes.excludes_iff {text : List Char} {ids : Option (ℤ × ℤ)}
    (hdenotes : Denotes text ids) (id : ℕ) :
    (rangeOf ids).excludes id = false ↔ Admitted ids id := by
  have hall : (rangeOf none).excludes id = false := by
    have hnot : ¬((id : ℤ) < -1) := by omega
    simp [rangeOf, IdRange.excludes, matchAll, hnot]
  have hrange : ∀ low high : ℤ, 0 ≤ low → low ≤ high →
      ((rangeOf (some (low, high))).excludes id = false ↔ Admitted (some (low, high)) id) := by
    intro low high hlow hle
    unfold rangeOf IdRange.excludes Admitted
    dsimp only
    rw [Bool.or_eq_false_iff, Bool.and_eq_false_iff, decide_eq_false_iff_not,
      decide_eq_false_iff_not, decide_eq_false_iff_not]
    omega
  cases hdenotes with
  | star => simp [hall, Admitted]
  | slash => simp [hall, Admitted]
  | all htext => simp [hall, Admitted]
  | single htext hvalue => exact hrange _ _ hvalue le_rfl
  | range hfirst hsecond hlow hle => exact hrange _ _ hlow hle

theorem Denotes.first_ne {text : List Char} {ids : Option (ℤ × ℤ)} (hdenotes : Denotes text ids) :
    (rangeOf ids).first ≠ matchFirst := by
  unfold matchFirst
  cases hdenotes with
  | star => decide
  | slash => decide
  | all htext => decide
  | single htext hvalue =>
      simp only [rangeOf]
      omega
  | range hfirst hsecond hlow hle =>
      simp only [rangeOf]
      omega

theorem matchIds_dsms {text : List Char} {ids : Option (ℤ × ℤ)} (hdenotes : Denotes text ids)
    (rm : RangeMatcher) (dsmid sid : ℕ) (hsid : rm.sids.excludes sid = false) :
    ({ rm with dsms := rangeOf ids }.matchIds dsmid sid).1 = true ↔ Admitted ids dsmid := by
  rw [← hdenotes.excludes_iff dsmid]
  unfold RangeMatcher.matchIds
  simp only [hsid, if_neg hdenotes.first_ne, Bool.false_eq_true, if_false]
  cases (rangeOf ids).excludes dsmid <;> simp

theorem matchIds_sids {text : List Char} {ids : Option (ℤ × ℤ)} (hdenotes : Denotes text ids)
    (rm : RangeMatcher) (dsmid sid : ℕ)
    (hdsmid : rm.dsms.first = matchFirst ∨ rm.dsms.excludes dsmid = false) :
    ({ rm with sids := rangeOf ids }.matchIds dsmid sid).1 = true ↔ Admitted ids sid := by
  rw [← hdenotes.excludes_iff sid]
  unfold RangeMatcher.matchIds
  cases hexcludes : (rangeOf ids).excludes sid with
  | true => simp
  | false =>
      simp only [Bool.false_eq_true, if_false, iff_true]
      by_cases hfirst : rm.dsms.first = matchFirst
      · have hself : IdRange.excludes ⟨dsmid, dsmid⟩ dsmid = false := by simp [IdRange.excludes]
        simp [hfirst, hself]
      · have hdsmid' := hdsmid.resolve_left hfirst
        simp [hfirst, hdsmid']

/-! ## Texts that slip through -/

/-- A text with a literal for two numbers, or for one, has no other meaning. -/
theorem InGrammar.of_pair {first second : List Char} (hne : first ≠ []) (hdash : '-' ∉ first.tail)
    {low : ℤ} (hfirst : ReadsAs first low) (hgrammar : InGrammar (first ++ '-' :: second)) :
    ∃ high, IsLiteral first low ∧ IsLiteral second high ∧ 0 ≤ low := by
  -- the dash is no sign, since there are not only blanks in front of it
  have hnot : ∀ text value more, text = first ++ '-' :: more → ¬IsLiteral text value := by
    rintro text value more rfl hliteral
    exact not_readsAs_blank hne (isSpace_of_readNumber hliteral.1) hfirst
  obtain ⟨text, htext⟩ : ∃ text, text = first ++ '-' :: second := ⟨_, rfl⟩
  rw [← htext] at hgrammar
  have hlong : text.length ≠ 1 := by
    rw [htext, List.length_append, List.length_cons]
    have := List.length_pos_of_ne_nil hne
    omega
  rcases hgrammar with rfl | ⟨ids, hdenotes⟩
  · exact absurd rfl hlong
  · cases hdenotes with
    | star => exact absurd rfl hlong
    | slash => exact absurd rfl hlong
    | all hliteral => exact absurd hliteral (hnot _ _ _ htext)
    | single hliteral hvalue => exact absurd hliteral (hnot _ _ _ htext)
    | @range first' second' low' high' hfirst' hsecond' hlow' hle' =>
        rcases split_cases hfirst'.ne_nil hdash htext.symm with ⟨rfl, rfl⟩ | ⟨more, hmore⟩
        · obtain rfl := hfirst.unique hfirst'.readsAs
          exact ⟨high', hfirst', hsecond', hlow'⟩
        · exact absurd hfirst' (hnot _ _ _ hmore)

theorem InGrammar.of_single {text : List Char} (hdash : '-' ∉ text.tail) {value : ℤ}
    (htext : ReadsAs text value) (hgrammar : InGrammar text) : IsLiteral text value := by
  obtain ⟨hstar, hslash, hdot⟩ := htext.ne_wildcard
  rcases hgrammar with hdot' | ⟨ids, hdenotes⟩
  · exact absurd hdot' hdot
  · cases hdenotes with
    | star => exact absurd rfl hstar
    | slash => exact absurd rfl hslash
    | all hliteral => rwa [htext.unique hliteral.readsAs]
    | single hliteral hvalue => rwa [htext.unique hliteral.readsAs]
    | @range first second low high hfirst hsecond hlow hle =>
        cases first with
        | nil => exact absurd rfl hfirst.ne_nil
        | cons c rest => simp at hdash

/-- A text that slips through is accepted though it is not of the grammar, or the other way
round. -/
theorem Slip.not_treated {text : List Char} (hslip : Slip text) : ¬Treated text := by
  intro htreated
  cases hslip with
  | @pair first second low high hne hdash hfirst hsecond hle hkind =>
      have hgrammar := htreated.accepted.mp
        ⟨_, parseRange_pair hne hdash hfirst hsecond hle⟩
      obtain ⟨high', hlow, hhigh, hnonneg⟩ := hgrammar.of_pair hne hdash hfirst
      obtain rfl := hsecond.unique hhigh.readsAs
      rcases hkind with hneg | hnot | hnot
      · omega
      · exact hnot hlow
      · exact hnot hhigh
  | single hdash hread hvalue hnot =>
      have hgrammar := htreated.accepted.mp ⟨_, parseRange_single hdash hread hvalue⟩
      exact hnot (hgrammar.of_single hdash hread)
  | @blank first rest hne hblank hgrammar =>
      obtain ⟨range, hparse⟩ := htreated.accepted.mpr hgrammar
      have hdash : '-' ∉ first.tail := by
        intro hmem
        have hspace := hblank _ (List.mem_of_mem_tail hmem)
        revert hspace
        decide
      unfold parseRange at hparse
      rw [splitAtDash_append hne hdash] at hparse
      have hnone : intFromString first = none := by
        rw [Option.eq_none_iff_forall_ne_some]
        intro num hnum
        obtain ⟨value, hvalue, -⟩ := intFromString_eq_some_iff.mp hnum
        exact not_readsAs_blank hne hblank hvalue
      dsimp only at hparse
      rw [hnone] at hparse
      cases hparse

end Nidas.Core
