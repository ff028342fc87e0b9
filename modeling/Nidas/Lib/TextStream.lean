import Nidas.Lib.NumberPrinting

/-!
# Input streams over a text

An input stream has the text that is left and two flags, for the end of the text and for a
failure.  An extraction skips blanks, and does nothing when a flag is set.  A scanner describes what
it does with a text; a number ends at the first character that cannot be in it, so that scanning
does not depend on what is behind that (`scanFloat_append`).  Therefore what has been printed is
read back (`scanInt_printNat`, `scanFloat_printFixed`).
-/

namespace Nidas.Lib

/-- An input stream. -/
structure TextStream where
  text : List Char
  eof : Bool := false
  fail : Bool := false
  deriving DecidableEq, Repr

/-- What a scanner makes of a text: a value, the rest of the text, and whether it failed. -/
structure Scanned (β : Type*) where
  value : β
  rest : List Char
  failed : Bool

/-! ## Scanners -/

def scanWord (text : List Char) : Scanned (List Char) where
  value := text.takeWhile (!isSpace ·)
  rest := text.dropWhile (!isSpace ·)
  failed := false

/-- A decimal integer of the type `int`. -/
def scanInt (text : List Char) : Scanned ℤ :=
  let digits := (takeSign text).2.takeWhile (isDigitOf 10)
  let rest := (takeSign text).2.dropWhile (isDigitOf 10)
  let value : ℤ := if (takeSign text).1 then -valueOfDigits 10 digits else valueOfDigits 10 digits
  if digits = [] then ⟨0, rest, true⟩
  else if value < -2 ^ 31 then ⟨-2 ^ 31, rest, true⟩
  else if 2 ^ 31 ≤ value then ⟨2 ^ 31 - 1, rest, true⟩
  else ⟨value, rest, false⟩

/-- The decimal places of a number, and what is behind them. -/
def takePlaces : List Char → List Char × List Char
  | '.' :: rest => (rest.takeWhile (isDigitOf 10), rest.dropWhile (isDigitOf 10))
  | text => ([], text)

/-- The exponent of a number, which is missing or incomplete, and what is behind it. -/
def takeExponent : List Char → Option (Bool × List Char) × List Char
  | 'e' :: rest => (some ((takeSign rest).1, (takeSign rest).2.takeWhile (isDigitOf 10)),
      (takeSign rest).2.dropWhile (isDigitOf 10))
  | 'E' :: rest => (some ((takeSign rest).1, (takeSign rest).2.takeWhile (isDigitOf 10)),
      (takeSign rest).2.dropWhile (isDigitOf 10))
  | text => (none, text)

/-- The power of ten of an exponent. -/
def powerOf : Option (Bool × List Char) → ℚ
  | none => 1
  | some (true, digits) => 1 / 10 ^ valueOfDigits 10 digits
  | some (false, digits) => 10 ^ valueOfDigits 10 digits

/-- The characters of a number, with what is behind them. -/
structure FloatParts where
  negative : Bool
  digits : List Char
  places : List Char
  exponent : Option (Bool × List Char)
  rest : List Char

/-- What a stream takes for a number. -/
def floatParts (text : List Char) : FloatParts :=
  let signed := takeSign text
  let digits := signed.2.takeWhile (isDigitOf 10)
  let placed := takePlaces (signed.2.dropWhile (isDigitOf 10))
  if digits ++ placed.1 = [] then ⟨signed.1, [], [], none, placed.2⟩
  else ⟨signed.1, digits, placed.1, (takeExponent placed.2).1, (takeExponent placed.2).2⟩

/-- The value of the characters, if they are a number. -/
def FloatParts.value? (parts : FloatParts) : Option ℚ :=
  if parts.digits ++ parts.places = [] then none
  else if parts.exponent.any fun exponent => exponent.2 = [] then none
  else
    let value := valueOfDigits 10 (parts.digits ++ parts.places) / 10 ^ parts.places.length *
      powerOf parts.exponent
    some (if parts.negative then -value else value)

/-- A number of the type `float`, which is limited to its range. -/
def scanFloat (text : List Char) : Scanned ℚ :=
  match (floatParts text).value? with
  | none => ⟨0, (floatParts text).rest, true⟩
  | some value =>
      let value := roundFloat value
      if 2 ^ 128 ≤ value then ⟨(2 - 1 / 2 ^ 23) * 2 ^ 127, (floatParts text).rest, true⟩
      else if value ≤ -2 ^ 128 then ⟨-((2 - 1 / 2 ^ 23) * 2 ^ 127), (floatParts text).rest, true⟩
      else ⟨value, (floatParts text).rest, false⟩

/-! ## Streams -/

namespace TextStream

/-- A stream at the begin of a text. -/
def ofText (text : List Char) : TextStream := ⟨text, false, false⟩

def good (stream : TextStream) : Bool := !stream.eof && !stream.fail

def clear (stream : TextStream) : TextStream := { stream with eof := false, fail := false }

/-- What every extraction begins with. -/
def skipBlanks (stream : TextStream) : TextStream :=
  if stream.good then
    if (stream.text.dropWhile isSpace).isEmpty then ⟨[], true, true⟩
    else { stream with text := stream.text.dropWhile isSpace }
  else { stream with fail := true }

/-- An extraction by a scanner, which goes up to the end of the text or not; without it there is
the value that was there before. -/
def extract {β : Type*} (scan : List Char → Scanned β) (before : β) (stream : TextStream) :
    β × TextStream :=
  if stream.skipBlanks.good then
    ((scan stream.skipBlanks.text).value,
      { text := (scan stream.skipBlanks.text).rest
        eof := (scan stream.skipBlanks.text).rest.isEmpty
        fail := (scan stream.skipBlanks.text).failed })
  else (before, stream.skipBlanks)

def readWord : TextStream → List Char × TextStream := extract scanWord []

def readInt : TextStream → ℤ × TextStream := extract scanInt 0

def readFloat : TextStream → ℚ × TextStream := extract scanFloat 0

/-- A character that is not a blank. -/
def readChar (before : Char) (stream : TextStream) : Char × TextStream :=
  if stream.skipBlanks.good then
    (stream.skipBlanks.text.headD before,
      { stream.skipBlanks with text := stream.skipBlanks.text.tail })
  else (before, stream.skipBlanks)

/-- `ignore`, up to a character that is skipped too. -/
def ignoreTo (delim : Char) (stream : TextStream) : TextStream :=
  if stream.good then
    match stream.text.dropWhile (· ≠ delim) with
    | [] => ⟨[], true, false⟩
    | _ :: rest => { stream with text := rest }
  else { stream with fail := true }

/-- `getline` with an array for `size` characters, of which the last is the end of the line. -/
def getline (size : ℕ) (delim : Char) (stream : TextStream) : List Char × TextStream :=
  if stream.good then
    let line := (stream.text.takeWhile (· ≠ delim)).take (size - 1)
    match stream.text.drop line.length with
    | [] => (line, ⟨[], true, line.isEmpty⟩)
    | c :: rest =>
        if c = delim then (line, { stream with text := rest })
        else (line, { stream with text := c :: rest, fail := true })
  else ([], { stream with fail := true })

/-- Numbers are read until there is none. -/
def readFloats : ℕ → TextStream → List ℚ × TextStream
  | 0, stream => ([], stream)
  | fuel + 1, stream =>
      if stream.readFloat.2.fail then ([], stream.readFloat.2)
      else (stream.readFloat.1 :: (readFloats fuel stream.readFloat.2).1,
        (readFloats fuel stream.readFloat.2).2)

end TextStream

/-! ## Where scanning ends -/

/-- A character that cannot be in a number. -/
structure EndsNumber (c : Char) : Prop where
  digit : isDigitOf 10 c = false
  other : c ∉ ['.', 'e', 'E', '-', '+']

theorem endsNumber_of_isSpace {c : Char} (hspace : isSpace c = true) : EndsNumber c := by
  have hle : c ≤ ' ' := by
    have hcases : c = ' ' ∨ '\t' ≤ c ∧ c ≤ '\r' := by simpa [isSpace] using hspace
    rcases hcases with rfl | ⟨-, hle⟩
    · exact Char.le_refl _
    · exact Char.le_trans hle (by decide)
  have hnot : ∀ other : Char, ¬ other ≤ ' ' → ¬ other ≤ c :=
    fun other hother hsmall => hother (Char.le_trans hsmall hle)
  constructor
  · unfold isDigitOf digitValue
    rw [if_neg fun h => hnot '0' (by decide) h.1, if_neg fun h => hnot 'a' (by decide) h.1,
      if_neg fun h => hnot 'A' (by decide) h.1]
    rfl
  · intro hmem
    simp only [List.mem_cons, List.not_mem_nil, or_false] at hmem
    rcases hmem with rfl | rfl | rfl | rfl | rfl <;> exact absurd hle (by decide)

theorem endsNumber_quote : EndsNumber '"' := ⟨by decide, by decide⟩

section Append

variable {c : Char} (hc : EndsNumber c) (rest : List Char)

theorem takeWhile_append_cons {p : Char → Bool} (hp : p c = false) (text : List Char) :
    (text ++ c :: rest).takeWhile p = text.takeWhile p := by
  induction text with
  | nil => simp [hp]
  | cons first text ih =>
      rw [List.cons_append, List.takeWhile_cons, List.takeWhile_cons, ih]

theorem dropWhile_append_cons {p : Char → Bool} (hp : p c = false) (text : List Char) :
    (text ++ c :: rest).dropWhile p = text.dropWhile p ++ c :: rest := by
  induction text with
  | nil => simp [hp]
  | cons first text ih =>
      rw [List.cons_append, List.dropWhile_cons, List.dropWhile_cons, ih]
      split <;> rfl

include hc

theorem takeSign_append (text : List Char) :
    takeSign (text ++ c :: rest) = ((takeSign text).1, (takeSign text).2 ++ c :: rest) := by
  have hother := hc.other
  simp only [List.mem_cons, not_or] at hother
  cases text with
  | nil => unfold takeSign; split <;> simp_all
  | cons first text => unfold takeSign; split <;> simp_all

theorem takePlaces_append (text : List Char) :
    takePlaces (text ++ c :: rest) =
      ((takePlaces text).1, (takePlaces text).2 ++ c :: rest) := by
  have hother := hc.other
  simp only [List.mem_cons, not_or] at hother
  cases text with
  | nil => unfold takePlaces; split <;> simp_all
  | cons first text =>
      by_cases hpoint : first = '.'
      · subst hpoint
        rw [List.cons_append, takePlaces, takePlaces, takeWhile_append_cons rest hc.digit,
          dropWhile_append_cons rest hc.digit]
      · unfold takePlaces
        split <;> simp_all

theorem takeExponent_append (text : List Char) :
    takeExponent (text ++ c :: rest) =
      ((takeExponent text).1, (takeExponent text).2 ++ c :: rest) := by
  have hother := hc.other
  simp only [List.mem_cons, not_or] at hother
  cases text with
  | nil => unfold takeExponent; split <;> simp_all
  | cons first text =>
      by_cases hmark : first = 'e' ∨ first = 'E'
      · rcases hmark with rfl | rfl <;>
          rw [List.cons_append, takeExponent, takeExponent, takeSign_append hc,
            takeWhile_append_cons rest hc.digit, dropWhile_append_cons rest hc.digit]
      · rw [not_or] at hmark
        unfold takeExponent
        split <;> simp_all

/-- What is taken for a number does not depend on what is behind its end. -/
theorem floatParts_append (text : List Char) :
    floatParts (text ++ c :: rest) =
      { floatParts text with rest := (floatParts text).rest ++ c :: rest } := by
  unfold floatParts
  dsimp only
  rw [takeSign_append hc, takeWhile_append_cons rest hc.digit, dropWhile_append_cons rest hc.digit,
    takePlaces_append hc]
  dsimp only
  split
  · rfl
  · rw [takeExponent_append hc]

theorem scanFloat_append (text : List Char) :
    scanFloat (text ++ c :: rest) =
      { scanFloat text with rest := (scanFloat text).rest ++ c :: rest } := by
  have hvalue : (floatParts (text ++ c :: rest)).value? = (floatParts text).value? := by
    rw [floatParts_append hc]
    rfl
  unfold scanFloat
  rw [hvalue, floatParts_append hc]
  cases (floatParts text).value? with
  | none => rfl
  | some value =>
      dsimp only
      split_ifs <;> rfl

theorem scanInt_append (text : List Char) :
    scanInt (text ++ c :: rest) =
      { scanInt text with rest := (scanInt text).rest ++ c :: rest } := by
  unfold scanInt
  dsimp only
  rw [takeSign_append hc, takeWhile_append_cons rest hc.digit, dropWhile_append_cons rest hc.digit]
  split_ifs <;> rfl

end Append

/-! ## What has been printed -/

theorem takeSign_digits {text : List Char} (hdigits : ∀ c ∈ text, isDigitOf 10 c = true) :
    takeSign text = (false, text) := by
  unfold takeSign
  split
  · have hdash := hdigits '-' List.mem_cons_self
    cases hdash
  · have hplus := hdigits '+' List.mem_cons_self
    cases hplus
  · rfl

/-- **An integer is read back.** -/
theorem scanInt_printNat {n : ℕ} (hlt : n < 2 ^ 31) : scanInt (printNat n) = ⟨n, [], false⟩ := by
  have hdigits : ∀ c ∈ printNat n, isDigitOf 10 c = true := fun c => isDigitOf_of_mem_printNat
  have htake : (printNat n).takeWhile (isDigitOf 10) = printNat n :=
    List.takeWhile_eq_self_iff.mpr hdigits
  have hdrop : (printNat n).dropWhile (isDigitOf 10) = [] :=
    List.dropWhile_eq_nil_iff.mpr hdigits
  unfold scanInt
  rw [takeSign_digits hdigits]
  dsimp only
  rw [htake, hdrop, valueOfDigits_printNat]
  simp only [printNat_ne_nil, if_false, Bool.false_eq_true]
  rw [if_neg (by omega), if_neg (by omega)]

/-- A number with decimal places. -/
theorem floatParts_printFixed {places : ℕ} (hplaces : 0 < places) {q : ℚ} (hq : 0 ≤ q) :
    floatParts (printFixed places q) =
      ⟨false, printNat (inPlaces places q / 10 ^ places), lastDigits places (inPlaces places q),
        none, []⟩ := by
  have hdigits : ∀ c ∈ printNat (inPlaces places q / 10 ^ places), isDigitOf 10 c = true :=
    fun c => isDigitOf_of_mem_printNat
  have hlast : ∀ c ∈ lastDigits places (inPlaces places q), isDigitOf 10 c = true :=
    fun c => isDigitOf_of_mem_lastDigits
  have hpoint : isDigitOf 10 '.' = false := by decide
  have htext : printFixed places q = printNat (inPlaces places q / 10 ^ places) ++
      '.' :: lastDigits places (inPlaces places q) := by
    unfold printFixed
    rw [if_neg (not_lt.mpr hq), if_neg hplaces.ne', List.nil_append]
  have hsign : takeSign (printFixed places q) = (false, printFixed places q) := by
    obtain ⟨first, rest, hfirst⟩ := List.exists_cons_of_ne_nil
      (printNat_ne_nil (inPlaces places q / 10 ^ places))
    have hdigit := hdigits first (by rw [hfirst]; exact List.mem_cons_self)
    rw [htext, hfirst, List.cons_append]
    unfold takeSign
    split
    · next heq =>
        rw [(List.cons.inj heq).1] at hdigit
        cases hdigit
    · next heq =>
        rw [(List.cons.inj heq).1] at hdigit
        cases hdigit
    · rfl
  unfold floatParts
  dsimp only
  rw [hsign, htext]
  dsimp only
  rw [takeWhile_append_cons _ hpoint, dropWhile_append_cons _ hpoint,
    List.takeWhile_eq_self_iff.mpr hdigits, List.dropWhile_eq_nil_iff.mpr hdigits, List.nil_append,
    takePlaces, List.takeWhile_eq_self_iff.mpr hlast, List.dropWhile_eq_nil_iff.mpr hlast,
    if_neg fun h => printNat_ne_nil _ (List.append_eq_nil_iff.mp h).1]
  rfl

/-- What is read of a number that was printed with decimal places. -/
def readBack (places : ℕ) (q : ℚ) : ℚ := roundFloat (inPlaces places q / 10 ^ places)

/-- **A number with decimal places is read back** as far as they go. -/
theorem scanFloat_printFixed {places : ℕ} (hplaces : 0 < places) {q : ℚ} (hq : 0 ≤ q)
    (hlt : readBack places q < 2 ^ 128) :
    scanFloat (printFixed places q) = ⟨readBack places q, [], false⟩ := by
  have hvalue : (floatParts (printFixed places q)).value? =
      some ((inPlaces places q : ℚ) / 10 ^ places) := by
    rw [floatParts_printFixed hplaces hq]
    unfold FloatParts.value?
    dsimp only
    rw [if_neg fun h => printNat_ne_nil _ (List.append_eq_nil_iff.mp h).1,
      valueOfDigits_printed]
    simp [powerOf]
  have hnonneg : 0 ≤ readBack places q := roundTo_nonneg (by positivity)
  unfold scanFloat
  rw [hvalue, floatParts_printFixed hplaces hq]
  dsimp only
  unfold readBack at hlt hnonneg ⊢
  rw [if_neg (not_le.mpr hlt), if_neg (by linarith)]

/-! ## Extractions from a text -/

namespace TextStream

variable {β : Type*} {scan : List Char → Scanned β} {before : β} {b c : Char}
  {text rest : List Char}

theorem skipBlanks_of_blank (hb : isSpace b = true) :
    (ofText (b :: text)).skipBlanks = (ofText text).skipBlanks := by
  unfold skipBlanks ofText
  simp [good, hb]

theorem skipBlanks_ofText (hne : text.dropWhile isSpace ≠ []) :
    (ofText text).skipBlanks = ofText (text.dropWhile isSpace) := by
  unfold skipBlanks ofText
  simp [good, hne]

theorem skipBlanks_of_cons (hc : isSpace c = false) :
    (ofText (c :: rest)).skipBlanks = ofText (c :: rest) := by
  have hdrop : (c :: rest).dropWhile isSpace = c :: rest := by simp [hc]
  rw [skipBlanks_ofText (by simp [hdrop]), hdrop]

theorem extract_of_blank (hb : isSpace b = true) :
    extract scan before (ofText (b :: text)) = extract scan before (ofText text) := by
  unfold extract
  rw [skipBlanks_of_blank hb]

theorem extract_of_cons (hc : isSpace c = false) :
    extract scan before (ofText (c :: rest)) =
      ((scan (c :: rest)).value,
        { text := (scan (c :: rest)).rest
          eof := (scan (c :: rest)).rest.isEmpty
          fail := (scan (c :: rest)).failed }) := by
  unfold extract
  rw [skipBlanks_of_cons hc]
  rfl

theorem readWord_of_blank (hb : isSpace b = true) :
    (ofText (b :: text)).readWord = (ofText text).readWord := extract_of_blank hb

theorem readInt_of_blank (hb : isSpace b = true) :
    (ofText (b :: text)).readInt = (ofText text).readInt := extract_of_blank hb

theorem readFloat_of_blank (hb : isSpace b = true) :
    (ofText (b :: text)).readFloat = (ofText text).readFloat := extract_of_blank hb

theorem readChar_of_blank {before : Char} (hb : isSpace b = true) :
    readChar before (ofText (b :: text)) = readChar before (ofText text) := by
  unfold readChar
  rw [skipBlanks_of_blank hb]

/-- Characters can be tested one after the other. -/
theorem noBlank_of_all {word : List Char} (h : (word.all fun c => !isSpace c) = true) :
    ∀ c ∈ word, isSpace c = false := by
  intro c hmem
  simpa using List.all_eq_true.mp h c hmem

/-- A word. -/
theorem readWord_ofText {word : List Char} (hne : word ≠ [])
    (hword : ∀ c ∈ word, isSpace c = false) (hc : isSpace c = true) :
    (ofText (word ++ c :: rest)).readWord = (word, ofText (c :: rest)) := by
  have hstop : (!isSpace c) = false := by rw [hc]; rfl
  have hall : ∀ other ∈ word, (!isSpace other) = true := by
    intro other hmem
    rw [hword other hmem]
    rfl
  obtain ⟨first, more, rfl⟩ := List.exists_cons_of_ne_nil hne
  unfold readWord
  rw [List.cons_append, extract_of_cons (hword first List.mem_cons_self), ← List.cons_append]
  unfold scanWord
  rw [takeWhile_append_cons rest hstop, dropWhile_append_cons rest hstop,
    List.takeWhile_eq_self_iff.mpr hall, List.dropWhile_eq_nil_iff.mpr hall]
  rfl

/-- A word of one character. -/
theorem readWord_singleton {first : Char} (hfirst : isSpace first = false)
    (hc : isSpace c = true) :
    (ofText (first :: c :: rest)).readWord = ([first], ofText (c :: rest)) := by
  have hne : [first] ≠ [] := List.cons_ne_nil _ _
  have hword : ∀ other ∈ [first], isSpace other = false := by simp [hfirst]
  exact readWord_ofText hne hword hc

theorem isSpace_of_isDigitOf (hdigit : isDigitOf 10 c = true) : isSpace c = false := by
  cases hspace : isSpace c with
  | false => rfl
  | true =>
      have hnot := (endsNumber_of_isSpace hspace).digit
      rw [hdigit] at hnot
      cases hnot

/-- An integer that was printed. -/
theorem readInt_printNat {n : ℕ} (hlt : n < 2 ^ 31) (hc : EndsNumber c) :
    (ofText (printNat n ++ c :: rest)).readInt = ((n : ℤ), ofText (c :: rest)) := by
  have hscan : scanInt (printNat n ++ c :: rest) = ⟨n, c :: rest, false⟩ := by
    rw [scanInt_append hc, scanInt_printNat hlt]
    rfl
  obtain ⟨first, more, hfirst⟩ := List.exists_cons_of_ne_nil (printNat_ne_nil n)
  have hdigit : isDigitOf 10 first = true :=
    isDigitOf_of_mem_printNat (n := n) (by rw [hfirst]; exact List.mem_cons_self)
  unfold readInt
  rw [hfirst, List.cons_append] at hscan ⊢
  rw [extract_of_cons (isSpace_of_isDigitOf hdigit), hscan]
  rfl

/-- A number that was printed with decimal places. -/
theorem readFloat_printFixed {places : ℕ} (hplaces : 0 < places) {q : ℚ} (hq : 0 ≤ q)
    (hlt : readBack places q < 2 ^ 128) (hc : EndsNumber c) :
    (ofText (printFixed places q ++ c :: rest)).readFloat =
      (readBack places q, ofText (c :: rest)) := by
  have hscan : scanFloat (printFixed places q ++ c :: rest) =
      ⟨readBack places q, c :: rest, false⟩ := by
    rw [scanFloat_append hc, scanFloat_printFixed hplaces hq hlt]
    rfl
  obtain ⟨first, more, hfirst⟩ :=
    List.exists_cons_of_ne_nil (printNat_ne_nil (inPlaces places q / 10 ^ places))
  have hdigit : isDigitOf 10 first = true :=
    isDigitOf_of_mem_printNat (n := inPlaces places q / 10 ^ places)
      (by rw [hfirst]; exact List.mem_cons_self)
  have htext : ∃ tail, printFixed places q = first :: tail := by
    unfold printFixed
    rw [if_neg (not_lt.mpr hq), hfirst]
    exact ⟨_, rfl⟩
  obtain ⟨tail, htail⟩ := htext
  unfold readFloat
  rw [htail, List.cons_append] at hscan ⊢
  rw [extract_of_cons (isSpace_of_isDigitOf hdigit), hscan]
  rfl

theorem floatParts_of_endsNumber (hc : EndsNumber c) :
    floatParts (c :: rest) = ⟨false, [], [], none, c :: rest⟩ := by
  have hnil := @floatParts_append c hc rest []
  rw [List.nil_append] at hnil
  rw [hnil]
  rfl

theorem readInt_of_endsNumber (hspace : isSpace c = false) (hc : EndsNumber c) :
    (ofText (c :: rest)).readInt = (0, ⟨c :: rest, false, true⟩) := by
  have hnil := @scanInt_append c hc rest []
  rw [List.nil_append] at hnil
  unfold readInt
  rw [extract_of_cons hspace, hnil]
  rfl

/-- There is no number. -/
theorem readFloat_of_endsNumber (hspace : isSpace c = false) (hc : EndsNumber c) :
    (ofText (c :: rest)).readFloat = (0, ⟨c :: rest, false, true⟩) := by
  unfold readFloat
  rw [extract_of_cons hspace]
  unfold scanFloat
  rw [floatParts_of_endsNumber hc]
  rfl

theorem readChar_ofText {before : Char} (hc : isSpace c = false) :
    readChar before (ofText (c :: rest)) = (c, ofText rest) := by
  unfold readChar
  rw [skipBlanks_of_cons hc]
  rfl

theorem ignoreTo_ofText {delim : Char} (hnot : delim ∉ text) :
    ignoreTo delim (ofText (text ++ delim :: rest)) = ofText rest := by
  have hdrop : (text ++ delim :: rest).dropWhile (fun other => decide (other ≠ delim)) =
      delim :: rest := by
    rw [dropWhile_append_cons rest (by simp), List.dropWhile_eq_nil_iff.mpr, List.nil_append]
    intro other hmem
    simpa using fun heq : other = delim => hnot (heq ▸ hmem)
  unfold ignoreTo
  simp only [ofText, good]
  rw [hdrop]
  rfl

theorem getline_ofText {delim : Char} {size : ℕ} {line : List Char} (hnot : delim ∉ line)
    (hlt : line.length < size) :
    getline size delim (ofText (line ++ delim :: rest)) = (line, ofText rest) := by
  have htake : ((line ++ delim :: rest).takeWhile fun other => decide (other ≠ delim)).take
      (size - 1) = line := by
    rw [takeWhile_append_cons rest (by simp), List.takeWhile_eq_self_iff.mpr,
      List.take_of_length_le (by omega)]
    intro other hmem
    simpa using fun heq : other = delim => hnot (heq ▸ hmem)
  unfold getline
  simp only [ofText, good]
  rw [htake, List.drop_left]
  simp

/-! ## Numbers up to a character -/

theorem takeSign_suffix (text : List Char) : (takeSign text).2 <:+ text := by
  unfold takeSign
  split
  · exact List.suffix_cons _ _
  · exact List.suffix_cons _ _
  · exact List.suffix_refl _

theorem takePlaces_suffix (text : List Char) : (takePlaces text).2 <:+ text := by
  unfold takePlaces
  split
  · exact (List.dropWhile_suffix _).trans (List.suffix_cons _ _)
  · exact List.suffix_refl _

theorem takeExponent_suffix (text : List Char) : (takeExponent text).2 <:+ text := by
  unfold takeExponent
  split
  · exact ((List.dropWhile_suffix _).trans (takeSign_suffix _)).trans (List.suffix_cons _ _)
  · exact ((List.dropWhile_suffix _).trans (takeSign_suffix _)).trans (List.suffix_cons _ _)
  · exact List.suffix_refl _

theorem length_takePlaces_lt {text : List Char} (hplaces : (takePlaces text).1 ≠ []) :
    (takePlaces text).2.length < text.length := by
  unfold takePlaces at hplaces ⊢
  split
  · exact Nat.lt_succ_of_le (List.dropWhile_suffix _).length_le
  · next hnot =>
      split at hplaces
      · exact absurd rfl (hnot _)
      · exact absurd rfl hplaces

theorem rest_scanFloat (text : List Char) : (scanFloat text).rest = (floatParts text).rest := by
  unfold scanFloat
  cases (floatParts text).value? with
  | none => rfl
  | some value =>
      dsimp only
      split_ifs <;> rfl

theorem scanFloat_suffix (text : List Char) : (scanFloat text).rest <:+ text := by
  have hdigits : (takePlaces ((takeSign text).2.dropWhile (isDigitOf 10))).2 <:+ text :=
    ((takePlaces_suffix _).trans (List.dropWhile_suffix _)).trans (takeSign_suffix _)
  rw [rest_scanFloat]
  unfold floatParts
  dsimp only
  split
  · exact hdigits
  · exact (takeExponent_suffix _).trans hdigits

/-- A number has characters. -/
theorem length_scanFloat (text : List Char) (hscan : (scanFloat text).failed = false) :
    (scanFloat text).rest.length < text.length := by
  have hparts : (floatParts text).digits ++ (floatParts text).places ≠ [] := by
    intro hnil
    have hnone : (floatParts text).value? = none := if_pos hnil
    unfold scanFloat at hscan
    rw [hnone] at hscan
    cases hscan
  have hsign := (takeSign_suffix text).length_le
  have hsplit := congrArg List.length
    (List.takeWhile_append_dropWhile (p := isDigitOf 10) (l := (takeSign text).2))
  rw [List.length_append] at hsplit
  rw [rest_scanFloat]
  unfold floatParts at hparts ⊢
  dsimp only at hparts ⊢
  split at hparts
  · exact absurd rfl hparts
  · next hne =>
      rw [if_neg hne]
      dsimp only
      have hexponent := (takeExponent_suffix
        (takePlaces ((takeSign text).2.dropWhile (isDigitOf 10))).2).length_le
      have hplaces := (takePlaces_suffix
        ((takeSign text).2.dropWhile (isDigitOf 10))).length_le
      by_cases hdigits : (takeSign text).2.takeWhile (isDigitOf 10) = []
      · -- then there are decimal places
        rw [hdigits, List.nil_append] at hne
        have hlt := length_takePlaces_lt hne
        omega
      · have hpos := List.length_pos_iff.mpr hdigits
        omega

/-- Numbers are read up to a character that cannot be in them, or up to something in front of it
that is no number. -/
theorem exists_readFloats {fuel : ℕ} (hspace : isSpace c = false) (hc : EndsNumber c)
    (hfuel : text.length < fuel) :
    ∃ numbers left, left <:+ text ∧
      readFloats fuel (ofText (text ++ c :: rest)) =
        (numbers, ⟨left ++ c :: rest, false, true⟩) := by
  induction fuel generalizing text with
  | zero => cases hfuel
  | succ fuel ih =>
      have hblanks := dropWhile_append_cons rest hspace text
      have hskip := @skipBlanks_ofText (text ++ c :: rest) (by simp [hblanks])
      have hread : (ofText (text ++ c :: rest)).readFloat =
          ((scanFloat (text.dropWhile isSpace)).value,
            ⟨(scanFloat (text.dropWhile isSpace)).rest ++ c :: rest, false,
              (scanFloat (text.dropWhile isSpace)).failed⟩) := by
        unfold readFloat extract
        rw [hskip, hblanks]
        simp [ofText, good, scanFloat_append hc]
      have hsuffix : (scanFloat (text.dropWhile isSpace)).rest <:+ text :=
        (scanFloat_suffix _).trans (List.dropWhile_suffix _)
      unfold readFloats
      rw [hread]
      dsimp only
      cases hfailed : (scanFloat (text.dropWhile isSpace)).failed with
      | true => exact ⟨[], _, hsuffix, rfl⟩
      | false =>
          have hlt := length_scanFloat _ hfailed
          have hle := (List.dropWhile_suffix isSpace (l := text)).length_le
          obtain ⟨numbers, left, hleft, hmore⟩ :=
            @ih (scanFloat (text.dropWhile isSpace)).rest (by omega)
          refine ⟨(scanFloat (text.dropWhile isSpace)).value :: numbers, left,
            hleft.trans hsuffix, ?_⟩
          change (_ :: (readFloats fuel (ofText _)).1, (readFloats fuel (ofText _)).2) = _
          rw [hmore]

/-! ## What is left of a text -/

section Left

variable (stream : TextStream)

/-- The text that is left is the end of the text before, or nothing of it has been read. -/
theorem skipBlanks_suffix : stream.skipBlanks.text <:+ stream.text := by
  unfold skipBlanks
  split
  · split
    · exact List.nil_suffix
    · exact List.dropWhile_suffix _
  · exact List.suffix_refl _

theorem good_of_skipBlanks (hgood : stream.skipBlanks.good = true) : stream.good = true := by
  unfold skipBlanks at hgood
  split at hgood
  · next hstream => exact hstream
  · simp [good] at hgood

theorem extract_suffix {scan : List Char → Scanned β} {before : β}
    (hscan : ∀ text, (scan text).rest <:+ text) :
    (extract scan before stream).2.text <:+ stream.text := by
  unfold extract
  split
  · exact (hscan _).trans (skipBlanks_suffix stream)
  · exact skipBlanks_suffix stream

theorem scanWord_suffix (text : List Char) : (scanWord text).rest <:+ text :=
  List.dropWhile_suffix _

theorem scanInt_suffix (text : List Char) : (scanInt text).rest <:+ text := by
  have hrest : (takeSign text).2.dropWhile (isDigitOf 10) <:+ text :=
    (List.dropWhile_suffix _).trans (takeSign_suffix text)
  unfold scanInt
  dsimp only
  split_ifs <;> exact hrest

theorem readWord_suffix : stream.readWord.2.text <:+ stream.text :=
  extract_suffix stream scanWord_suffix

theorem readInt_suffix : stream.readInt.2.text <:+ stream.text :=
  extract_suffix stream scanInt_suffix

theorem readFloat_suffix : stream.readFloat.2.text <:+ stream.text :=
  extract_suffix stream scanFloat_suffix

theorem readChar_suffix (before : Char) : (readChar before stream).2.text <:+ stream.text := by
  unfold readChar
  split
  · exact (List.tail_suffix _).trans (skipBlanks_suffix stream)
  · exact skipBlanks_suffix stream

theorem ignoreTo_suffix (delim : Char) : (stream.ignoreTo delim).text <:+ stream.text := by
  unfold ignoreTo
  split
  · have hdrop : stream.text.dropWhile (fun c => decide (c ≠ delim)) <:+ stream.text :=
      List.dropWhile_suffix _
    split
    · exact List.nil_suffix
    · next heq =>
        rw [heq] at hdrop
        exact (List.suffix_cons _ _).trans hdrop
  · exact List.suffix_refl _

theorem getline_suffix (size : ℕ) (delim : Char) :
    (stream.getline size delim).2.text <:+ stream.text := by
  unfold getline
  split
  · dsimp only
    split
    · exact List.nil_suffix
    · next c rest heq =>
        have hdrop : c :: rest <:+ stream.text := by
          rw [← heq]
          exact List.drop_suffix _ _
        split
        · exact (List.suffix_cons _ _).trans hdrop
        · exact hdrop
  · exact List.suffix_refl _

theorem readFloats_suffix (fuel : ℕ) : (readFloats fuel stream).2.text <:+ stream.text := by
  induction fuel generalizing stream with
  | zero => exact List.suffix_refl _
  | succ fuel ih =>
      unfold readFloats
      split
      · exact readFloat_suffix stream
      · exact (ih _).trans (readFloat_suffix stream)

/-- A stream that has failed stays so. -/
theorem fail_extract {scan : List Char → Scanned β} {before : β} (hfail : stream.fail = true) :
    extract scan before stream = (before, stream) := by
  have hgood : stream.good = false := by simp [good, hfail]
  have hskip : stream.skipBlanks = stream := by
    unfold skipBlanks
    rw [hgood, if_neg Bool.false_ne_true, ← hfail]
  unfold extract
  rw [hskip, hgood, if_neg Bool.false_ne_true]

/-- What an extraction begins with, if it does something. -/
theorem skipBlanks_of_good (hgood : stream.skipBlanks.good = true) :
    ∃ c rest, stream.skipBlanks.text = c :: rest ∧ isSpace c = false := by
  have hstream := good_of_skipBlanks stream hgood
  unfold skipBlanks at hgood ⊢
  rw [if_pos hstream] at hgood ⊢
  split at hgood
  · simp [good] at hgood
  · next hne =>
      rw [if_neg hne]
      dsimp only
      cases htext : stream.text.dropWhile isSpace with
      | nil => simp [htext] at hne
      | cons c rest =>
          refine ⟨c, rest, rfl, ?_⟩
          have hne : stream.text.dropWhile isSpace ≠ [] := by simp [htext]
          have hhead := List.head_dropWhile_not isSpace hne
          simp only [htext, List.head_cons] at hhead
          exact hhead

/-- A word has characters. -/
theorem length_readWord (hmore : stream.readWord.2.eof = false)
    (hfail : stream.fail = false) :
    stream.readWord.2.text.length < stream.text.length ∧ stream.readWord.2.fail = false := by
  unfold readWord extract at hmore ⊢
  split at hmore
  · next hgood =>
      obtain ⟨c, rest, htext, hc⟩ := skipBlanks_of_good stream hgood
      have hle := (skipBlanks_suffix stream).length_le
      rw [if_pos hgood]
      refine ⟨?_, rfl⟩
      unfold scanWord
      dsimp only
      rw [htext, List.dropWhile_cons, hc] at *
      have hrest := (List.dropWhile_suffix (fun c => !isSpace c) (l := rest)).length_le
      simp only [Bool.not_false, if_true]
      rw [List.length_cons] at hle
      omega
  · next hbad =>
      exfalso
      -- without a failure only the end of the text stops it
      have heof : stream.eof = false → stream.skipBlanks.eof = false →
          stream.skipBlanks.good = true := by
        intro heof hskipped
        unfold skipBlanks at hskipped ⊢
        have hstream : stream.good = true := by simp [good, heof, hfail]
        rw [if_pos hstream] at hskipped ⊢
        split at hskipped
        · cases hskipped
        · next hne =>
            rw [if_neg hne]
            exact hstream
      cases hstream : stream.eof with
      | false => exact hbad (heof hstream hmore)
      | true =>
          have hkept : stream.skipBlanks.eof = true := by
            unfold skipBlanks
            simp [good, hstream]
          rw [hkept] at hmore
          cases hmore

/-- A number that is read has characters. -/
theorem length_readFloat (hread : stream.readFloat.2.fail = false) :
    stream.readFloat.2.text.length < stream.text.length := by
  unfold readFloat extract at hread ⊢
  split at hread
  · next hgood =>
      rw [if_pos hgood]
      have hlt := length_scanFloat _ hread
      have hle := (skipBlanks_suffix stream).length_le
      dsimp only
      omega
  · next hbad =>
      exfalso
      unfold skipBlanks at hbad hread
      split at hread
      · next hstream =>
          rw [if_pos hstream] at hbad
          split at hread
          · cases hread
          · next hne =>
              rw [if_neg hne] at hbad
              exact hbad hstream
      · cases hread

/-- Numbers are read until there is none. -/
theorem fail_readFloats {fuel : ℕ} (hfuel : stream.text.length < fuel) :
    (readFloats fuel stream).2.fail = true := by
  induction fuel generalizing stream with
  | zero => cases hfuel
  | succ fuel ih =>
      unfold readFloats
      split
      · next hfail => exact hfail
      · next hread =>
          have hlt := length_readFloat stream (by simpa using hread)
          exact ih _ (by omega)

end Left

end TextStream

end Nidas.Lib
