import Nidas.Dynld.SyncHeader
import Nidas.Lib.GeneralNumbers

/-!
# The variables of the header are read back

`readVariables` reads the lines of the variables: every attribute is found where `createHeader` has
written it (`readVariable_attributes`).  The coefficients of a calibration are read as far as they
are numbers, and the quote behind them is found again.
-/

namespace Nidas.Dynld.SyncHeader

open Lib TextStream

/-! ## Parts of a line -/

/-- A text between quotes that fits in the buffer of the reader. -/
structure Quotable (text : List Char) : Prop where
  noQuote : '"' ∉ text
  fits : text.length < 512

/-- The texts of a variable can be between quotes, and its length is an `int`. -/
structure Writable (var : HeaderVariable) : Prop where
  units : Quotable var.units
  longName : Quotable var.longName
  converter : ∀ conv ∈ var.converter, Quotable conv.units
  calFile : ∀ conv ∈ var.converter, ∀ cfile ∈ conv.calFile, Quotable cfile.1 ∧ Quotable cfile.2
  length : var.length < 2 ^ 31

/-- The type that is read. -/
def writtenType : VariableType → VariableType
  | .weight => .other
  | type => type

/-! ### Converters -/

def Conversion.coefs : Conversion → List ℚ
  | .linear intercept slope => [intercept, slope]
  | .polynomial coefs => coefs
  | .other => []

/-- The coefficients in the line of a variable. -/
def HeaderVariable.coefs (var : HeaderVariable) : List ℚ :=
  match var.converter with
  | none => []
  | some conv => conv.conversion.coefs

/-- The units behind them. -/
def HeaderVariable.convertedUnits (var : HeaderVariable) : List Char :=
  match var.converter with
  | none => var.units
  | some conv => conv.units

def HeaderVariable.calFile (var : HeaderVariable) : Option (List Char × List Char) :=
  var.converter.bind Converter.calFile

/-- The coefficients are in the range of the type `float`. -/
def HeaderVariable.InRange (var : HeaderVariable) : Prop :=
  ∀ coef ∈ var.coefs, |readSignificant 16 coef| < 2 ^ 128

/-- The polynomial that is read. -/
def HeaderVariable.readConverter (var : HeaderVariable) : Option ReadConverter :=
  if var.coefs ≠ [] ∨ var.calFile.isSome then
    some ⟨var.coefs.map (readSignificant 16), untilNul var.convertedUnits,
      var.calFile.map fun cfile => (untilNul cfile.1, untilNul cfile.2)⟩
  else none

/-- What is read of a variable, but for its converter. -/
def readOf (var : HeaderVariable) (converter : Option ReadConverter) : SyncRecordVariable where
  name := var.name
  type := writtenType var.type
  length := var.length
  units := untilNul var.units
  longName := untilNul var.longName
  converter := converter

/-- A record has what is read of a variable. -/
def ReadAs (var : HeaderVariable) (record : SyncRecordVariable) : Prop :=
  ∃ converter, record = readOf var converter ∧ (var.InRange → converter = var.readConverter)

/-- As many lines as there are take up as many characters or more. -/
theorem length_le_flatMap {β : Type*} {lines : List β} {text : β → List Char}
    (htext : ∀ line ∈ lines, text line ≠ []) : lines.length ≤ (lines.flatMap text).length := by
  induction lines with
  | nil => exact Nat.le_refl _
  | cons line lines ih =>
      obtain ⟨hfirst, hrest⟩ := List.forall_mem_cons.mp htext
      have hpos := List.length_pos_iff.mpr hfirst
      have hmore := ih hrest
      rw [List.flatMap_cons, List.length_append, List.length_cons]
      omega

/-! ### Quoted strings and types -/

@[simp] theorem require_true (error : HeaderError) : require true error = pure () := rfl

@[simp] theorem requireMore_ofText (section' : String) (text : List Char) :
    requireMore section' (ofText text) = pure () := rfl

theorem getQuotedString_ofText {before value rest : List Char} (hbefore : '"' ∉ before)
    (hvalue : Quotable value) :
    getQuotedString (ofText (before ++ '"' :: (value ++ '"' :: rest))) =
      (untilNul value, ofText rest) := by
  unfold getQuotedString
  rw [ignoreTo_ofText hbefore]
  dsimp only
  rw [getline_ofText hvalue.noQuote hvalue.fits]
  rfl

theorem readType_typeAbbr (type : VariableType) :
    readType [typeAbbr type] = pure (writtenType type) := by
  cases type <;> rfl

theorem isSpace_typeAbbr (type : VariableType) : isSpace (typeAbbr type) = false := by
  cases type <;> rfl

theorem isSpace_quote : isSpace '"' = false := by decide

theorem noQuote_printGeneral {precision : ℕ} {q : ℚ} : '"' ∉ printGeneral precision q := by
  intro hmem
  have hin : InNumber '"' := inNumber_of_mem_printGeneral '"' hmem
  unfold InNumber at hin
  rw [endsNumber_quote.digit] at hin
  simp at hin

theorem noQuote_coefs {coefs : List ℚ} :
    '"' ∉ coefs.flatMap fun coef => printGeneral 16 coef ++ [' '] := by
  simp [noQuote_printGeneral]

/-- The coefficients, the units and the calibration file. -/
theorem exists_converterText (var : HeaderVariable) :
    ∃ before gap, (∀ c ∈ before, c = ' ') ∧ (∀ c ∈ gap, c = ' ') ∧
      converterText var = (var.coefs.flatMap fun coef => printGeneral 16 coef ++ [' ']) ++
        (before ++ '"' :: (var.convertedUnits ++ '"' :: (gap ++ calFileText var.calFile))) := by
  unfold converterText HeaderVariable.coefs HeaderVariable.convertedUnits HeaderVariable.calFile
  cases var.converter with
  | none =>
      refine ⟨[' '], [], by simp, by simp, ?_⟩
      simp only [List.append_assoc]
      rfl
  | some conv =>
      cases hconversion : conv.conversion with
      | linear intercept slope =>
          refine ⟨[], [' '], by simp, by simp, ?_⟩
          rw [Option.bind_some]
          simp only [hconversion, coefficientText, Conversion.coefs, List.flatMap_cons,
            List.flatMap_nil, List.append_nil, List.append_assoc, List.cons_append]
          rfl
      | polynomial coefs =>
          refine ⟨[' '], [' '], by simp, by simp, ?_⟩
          rw [Option.bind_some]
          simp only [hconversion, coefficientText, Conversion.coefs, List.append_assoc]
          rfl
      | other =>
          refine ⟨[' '], [' '], by simp, by simp, ?_⟩
          rw [Option.bind_some]
          simp only [hconversion, coefficientText, Conversion.coefs, List.append_assoc]
          rfl

theorem Writable.convertedUnits {var : HeaderVariable} (hvar : Writable var) :
    Quotable var.convertedUnits := by
  unfold HeaderVariable.convertedUnits
  cases hconv : var.converter with
  | none => exact hvar.units
  | some conv => exact hvar.converter conv hconv

theorem Writable.quotableCalFile {var : HeaderVariable} (hvar : Writable var) :
    ∀ cfile ∈ var.calFile, Quotable cfile.1 ∧ Quotable cfile.2 := by
  intro cfile hcfile
  obtain ⟨conv, hconv, hsome⟩ := Option.bind_eq_some_iff.mp hcfile
  exact hvar.calFile conv hconv cfile hsome

/-- The coefficients are read, or some of them, and then there is the quote. -/
theorem exists_readCoefs (var : HeaderVariable) {before : List Char}
    (hbefore : ∀ c ∈ before, c = ' ') (after : List Char) {fuel : ℕ}
    (hfuel : ((var.coefs.flatMap fun coef => printGeneral 16 coef ++ [' ']) ++ before).length + 1 <
      fuel) :
    ∃ coefs left, '"' ∉ left ∧
      readFloats fuel (ofText (' ' :: ((var.coefs.flatMap fun coef =>
        printGeneral 16 coef ++ [' ']) ++ (before ++ '"' :: after)))) =
          (coefs, ⟨left ++ '"' :: after, false, true⟩) ∧
      (var.InRange → coefs = var.coefs.map (readSignificant 16)) := by
  by_cases hrange : var.InRange
  · obtain ⟨fuel, rfl⟩ := Nat.exists_eq_succ_of_ne_zero (Nat.ne_of_gt (Nat.zero_lt_of_lt hfuel))
    have hlength : var.coefs.length ≤
        (var.coefs.flatMap fun coef => printGeneral 16 coef ++ [' ']).length :=
      length_le_flatMap fun coef _ => by simp
    rw [List.length_append] at hfuel
    have hblank := @readFloats_of_blanks [' '] (List.forall_mem_singleton.mpr rfl) fuel
      ((var.coefs.flatMap fun coef => printGeneral 16 coef ++ [' ']) ++ (before ++ '"' :: after))
    rw [List.singleton_append] at hblank
    refine ⟨_, [], by simp, ?_, fun _ => rfl⟩
    rw [hblank, readFloats_printGeneral (by decide) hrange
      (fun c hmem => by rw [hbefore c hmem]; rfl) isSpace_quote endsNumber_quote
      (by omega : var.coefs.length < fuel + 1)]
    rfl
  · obtain ⟨text, htext⟩ : ∃ text, text = ' ' :: ((var.coefs.flatMap fun coef =>
        printGeneral 16 coef ++ [' ']) ++ before) := ⟨_, rfl⟩
    have hlong : text.length < fuel := by
      rw [htext, List.length_cons]
      exact hfuel
    obtain ⟨coefs, left, hleft, hcoefs⟩ := exists_readFloats isSpace_quote endsNumber_quote hlong
    subst htext
    refine ⟨coefs, left, ?_, ?_, fun h => absurd h hrange⟩
    · intro hmem
      rcases List.mem_cons.mp (hleft.subset hmem) with heq | hmem
      · cases heq
      · rcases List.mem_append.mp hmem with hmem | hmem
        · exact noQuote_coefs hmem
        · cases hbefore _ hmem
    · rw [← hcoefs]
      simp only [List.append_assoc, List.cons_append]

/-! ## A line -/

theorem readNonBlank_ofText {c nextchar : Char} {rest : List Char} (hc : isSpace c = false) :
    readNonBlank nextchar (ofText (c :: rest)) = pure (c, ofText rest) := by
  unfold readNonBlank
  rw [readChar_ofText hc]
  rfl

theorem readNonBlank_of_blanks {gap rest : List Char} {nextchar : Char}
    (hgap : ∀ c ∈ gap, c = ' ') :
    readNonBlank nextchar (ofText (gap ++ rest)) = readNonBlank nextchar (ofText rest) := by
  induction gap with
  | nil => rfl
  | cons c gap ih =>
      obtain ⟨rfl, hrest⟩ := List.forall_mem_cons.mp hgap
      rw [← ih hrest]
      unfold readNonBlank
      rw [List.cons_append, readChar_of_blank (by decide)]

theorem readKeyword_ofText {keyword expect : String} {first : Char} {value rest : List Char}
    (text : List Char) (htext : '=' ∉ text) (hfits : text.length < 4)
    (hkeyword : untilNul (first :: text) = keyword.toList) (hvalue : Quotable value) :
    readKeyword keyword expect first (ofText (text ++ '=' :: '"' :: (value ++ '"' :: rest))) =
      pure (untilNul value, ofText rest) := by
  have hquoted := @getQuotedString_ofText [] value rest (by simp) hvalue
  rw [List.nil_append] at hquoted
  unfold readKeyword
  rw [getline_ofText htext hfits]
  dsimp only
  rw [requireMore_ofText, pure_bind, hkeyword, decide_eq_true rfl, require_true, pure_bind]
  exact congrArg pure hquoted

/-- The calibration file, and the end of the line. -/
theorem exists_readCalFile {gap : List Char} {calFile : Option (List Char × List Char)}
    (rest : List Char) (hgap : ∀ c ∈ gap, c = ' ')
    (hcalFile : ∀ cfile ∈ calFile, Quotable cfile.1 ∧ Quotable cfile.2) :
    ∃ nextchar header,
      readNonBlank '\x00' (ofText (gap ++ (calFileText calFile ++ ';' :: rest))) =
        pure (nextchar, header) ∧
      readCalFile nextchar header =
        pure (calFile.map fun cfile => (untilNul cfile.1, untilNul cfile.2), ';', ofText rest) := by
  rw [readNonBlank_of_blanks hgap]
  cases calFile with
  | none => exact ⟨';', ofText rest, readNonBlank_ofText (by decide), rfl⟩
  | some cfile =>
      obtain ⟨hfile, hpath⟩ := hcalFile cfile rfl
      have htext : calFileText (some cfile) ++ ';' :: rest =
          'f' :: (['i', 'l', 'e'] ++ '=' :: '"' :: (cfile.1 ++ '"' :: (' ' :: 'p' ::
            (['a', 't', 'h'] ++ '=' :: '"' :: (cfile.2 ++ '"' :: ';' :: rest))))) := by
        unfold calFileText
        simp only [List.append_assoc]
        rfl
      rw [htext]
      refine ⟨'f', _, readNonBlank_ofText (by decide), ?_⟩
      unfold readCalFile
      rw [if_pos rfl, readKeyword_ofText _ (by decide) (by decide) (by decide) hfile, pure_bind]
      dsimp only
      have hblank := @readNonBlank_of_blanks [' '] ('p' :: (['a', 't', 'h'] ++ '=' :: '"' ::
        (cfile.2 ++ '"' :: ';' :: rest))) 'f' (by simp)
      rw [List.singleton_append] at hblank
      rw [hblank, readNonBlank_ofText (by decide), pure_bind]
      dsimp only
      rw [if_pos rfl, readKeyword_ofText _ (by decide) (by decide) (by decide) hpath, pure_bind]
      dsimp only
      rw [readNonBlank_ofText (by decide), pure_bind]
      rfl

/-- **The attributes of a variable are read back.** -/
theorem readVariable_attributes {var : HeaderVariable} (hvar : Writable var) (rest : List Char) :
    ∃ record, ReadAs var record ∧ readVariable var.name (ofText (attributesText var ++ rest)) =
      pure (record, ofText ('\n' :: rest)) := by
  obtain ⟨before, gap, hbefore, hgap, hconv⟩ := exists_converterText var
  obtain ⟨after, hafter⟩ : ∃ after, after =
    var.convertedUnits ++ '"' :: (gap ++ (calFileText var.calFile ++ ';' :: '\n' :: rest)) :=
      ⟨_, rfl⟩
  have htext : attributesText var ++ rest = ' ' :: ([typeAbbr var.type] ++ ' ' ::
      (printNat var.length ++ ' ' :: ('"' :: (var.units ++ '"' :: (' ' :: '"' ::
        (var.longName ++ '"' :: (' ' :: ((var.coefs.flatMap fun coef =>
          printGeneral 16 coef ++ [' ']) ++ (before ++ '"' :: after))))))))) := by
    unfold attributesText
    rw [hconv, hafter]
    simp only [List.append_assoc, List.cons_append]
    rfl
  have hblank : isSpace ' ' = true := by decide
  have hquoted : ∀ {value : List Char} (rest : List Char), Quotable value →
      getQuotedString (ofText (' ' :: '"' :: (value ++ '"' :: rest))) =
        (untilNul value, ofText rest) :=
    fun rest hvalue => @getQuotedString_ofText [' '] _ rest (by decide) hvalue
  have hfuel : ((var.coefs.flatMap fun coef => printGeneral 16 coef ++ [' ']) ++
      before).length + 1 < (ofText (' ' :: ((var.coefs.flatMap fun coef =>
        printGeneral 16 coef ++ [' ']) ++ (before ++ '"' :: after)))).text.length + 1 := by
    simp only [ofText, List.length_cons, List.length_append]
    omega
  obtain ⟨coefs, left, hleft, hcoefs, hrange⟩ := exists_readCoefs var hbefore after hfuel
  obtain ⟨nextchar, header, hnext, hend⟩ :=
    exists_readCalFile ('\n' :: rest) hgap hvar.quotableCalFile
  have hlength : (((var.length : ℤ) % 2 ^ 32).toNat) = var.length := by
    have := hvar.length
    omega
  refine ⟨readOf var (if coefs ≠ [] ∨ var.calFile.isSome then
    some ⟨coefs, untilNul var.convertedUnits,
      var.calFile.map fun cfile => (untilNul cfile.1, untilNul cfile.2)⟩ else none),
    ⟨_, rfl, fun h => ?_⟩, ?_⟩
  · rw [hrange h]
    simp only [HeaderVariable.readConverter, ne_eq, List.map_eq_nil_iff]
  unfold readVariable
  rw [htext, readWord_of_blank hblank, readWord_ofText (by simp)
    (by simp [isSpace_typeAbbr]) hblank]
  dsimp only
  rw [readInt_of_blank hblank, readInt_printNat hvar.length (endsNumber_of_isSpace hblank)]
  dsimp only
  rw [requireMore_ofText, pure_bind, readType_typeAbbr, pure_bind, hquoted _ hvar.units]
  dsimp only
  rw [requireMore_ofText, pure_bind, hquoted _ hvar.longName]
  dsimp only
  rw [requireMore_ofText, pure_bind, hcoefs]
  dsimp only
  have hmore : requireMore "variables" ⟨left ++ '"' :: after, false, true⟩ = pure () := rfl
  have hclear : TextStream.clear ⟨left ++ '"' :: after, false, true⟩ =
    ofText (left ++ '"' :: after) := rfl
  rw [hmore, pure_bind, hclear, hafter, getQuotedString_ofText hleft hvar.convertedUnits]
  dsimp only
  rw [requireMore_ofText, pure_bind, hnext, pure_bind]
  dsimp only
  rw [hend, pure_bind]
  dsimp only
  rw [decide_eq_true rfl, require_true, pure_bind, hlength]
  simp only [Option.isSome_map]
  rfl

/-! ## The section of the variables -/

/-- A name that is one word. -/
structure Wordlike (name : List Char) : Prop where
  ne_nil : name ≠ []
  noBlank : ∀ c ∈ name, isSpace c = false

theorem replaceSpaces_eq {name : List Char} (hname : ∀ c ∈ name, isSpace c = false) :
    replaceSpaces name = name := by
  have hsame : ∀ c ∈ name, (if c = ' ' then '_' else c) = id c := by
    intro c hmem
    apply if_neg
    rintro rfl
    cases hname ' ' hmem
  unfold replaceSpaces
  rw [List.map_congr_left hsame, List.map_id]

/-- The names get positions, beginning with a number. -/
def registerAll : ℕ → VarMap → List (List Char) → VarMap
  | _, vmap, [] => vmap
  | count, vmap, name :: names =>
      registerAll (count + 1) (insertKey name (some count) vmap) names

theorem readVariables_cons {var : HeaderVariable} (hvar : Writable var) (hname : Wordlike var.name)
    (hbrace : var.name ≠ ['}']) (fuel : ℕ) (newvars : List SyncRecordVariable) (vmap : VarMap)
    (rest : List Char) :
    ∃ record, ReadAs var record ∧ readVariables (fuel + 1) newvars vmap
        (ofText ('\n' :: (variableText var ++ rest))) =
      readVariables fuel (newvars ++ [record])
        (insertKey var.name (some newvars.length) vmap) (ofText ('\n' :: rest)) := by
  obtain ⟨record, hrecord, hread⟩ := readVariable_attributes hvar rest
  have htext : variableText var ++ rest =
      var.name ++ ' ' :: (attributesText var ++ rest).tail := by
    unfold variableText
    rw [replaceSpaces_eq hname.noBlank, List.append_assoc]
    rfl
  have hattributes : ' ' :: (attributesText var ++ rest).tail = attributesText var ++ rest := rfl
  refine ⟨record, hrecord, ?_⟩
  rw [readVariables, readWord_of_blank (by decide), htext,
    readWord_ofText hname.ne_nil hname.noBlank (by decide), hattributes]
  dsimp only
  rw [requireMore_ofText, pure_bind, if_neg hbrace, hread, pure_bind]

/-- The lines of some variables. -/
theorem exists_readVariables {vars : List HeaderVariable} (hvars : ∀ var ∈ vars, Writable var)
    (hnames : ∀ var ∈ vars, Wordlike var.name ∧ var.name ≠ ['}']) (fuel : ℕ)
    (newvars : List SyncRecordVariable) (vmap : VarMap) (rest : List Char) :
    ∃ read, List.Forall₂ ReadAs vars read ∧
      readVariables (fuel + vars.length) newvars vmap
          (ofText ('\n' :: (vars.flatMap variableText ++ rest))) =
        readVariables fuel (newvars ++ read)
          (registerAll newvars.length vmap (vars.map HeaderVariable.name))
          (ofText ('\n' :: rest)) := by
  induction vars generalizing newvars vmap with
  | nil => exact ⟨[], .nil, by simp [registerAll]⟩
  | cons var vars ih =>
      obtain ⟨hvar, hvars⟩ := List.forall_mem_cons.mp hvars
      obtain ⟨⟨hname, hbrace⟩, hnames⟩ := List.forall_mem_cons.mp hnames
      obtain ⟨record, hrecord, hfirst⟩ := readVariables_cons hvar hname hbrace
        (fuel + vars.length) newvars vmap (vars.flatMap variableText ++ rest)
      obtain ⟨read, hread, hrest⟩ := ih hvars hnames (newvars ++ [record])
        (insertKey var.name (some newvars.length) vmap)
      refine ⟨record :: read, .cons hrecord hread, ?_⟩
      rw [List.flatMap_cons, List.append_assoc, List.length_cons, ← Nat.add_assoc, hfirst, hrest,
        List.append_assoc, List.length_append]
      rfl

/-- The end of the section. -/
theorem readVariables_brace (fuel : ℕ) (newvars : List SyncRecordVariable) (vmap : VarMap)
    {c : Char} (hc : isSpace c = true) (rest : List Char) :
    readVariables (fuel + 1) newvars vmap (ofText ('\n' :: '}' :: c :: rest)) =
      pure (newvars, vmap, ofText (c :: rest)) := by
  have hword : (ofText ('}' :: c :: rest)).readWord = (['}'], ofText (c :: rest)) :=
    readWord_singleton (by decide) hc
  rw [readVariables, readWord_of_blank (by decide), hword]
  rfl

theorem expectWord_of_blank {word expect before : String} {b : Char} (hb : isSpace b = true)
    (text : List Char) :
    expectWord word expect before (ofText (b :: text)) =
      expectWord word expect before (ofText text) := by
  unfold expectWord
  rw [readWord_of_blank hb]

theorem expectWord_ofText {word expect before : String} {c : Char} (rest : List Char)
    (hne : word.toList ≠ []) (hword : ∀ c ∈ word.toList, isSpace c = false)
    (hc : isSpace c = true) :
    expectWord word expect before (ofText (word.toList ++ c :: rest)) =
      pure (ofText (c :: rest)) := by
  unfold expectWord
  rw [readWord_ofText hne hword hc]
  dsimp only
  rw [decide_eq_true rfl]
  rfl

/-! ## The keyed values -/

/-- The texts of a flight can be between quotes. -/
structure Flight.Quotable (flight : Flight) : Prop where
  projectName : SyncHeader.Quotable flight.projectName
  tailNumber : SyncHeader.Quotable flight.tailNumber
  flightName : SyncHeader.Quotable flight.flightName
  softwareVersion : SyncHeader.Quotable flight.softwareVersion

/-- The flight name in the header. -/
def Flight.writtenName (flight : Flight) : List Char :=
  if flight.flightName.length = 0 then "unknown_flight".toList else flight.flightName

/-- What is read of a flight. -/
def Flight.read (flight : Flight) : Flight where
  projectName := untilNul flight.projectName
  tailNumber := untilNul flight.tailNumber
  flightName := untilNul flight.writtenName
  softwareVersion := untilNul flight.softwareVersion

theorem Flight.Quotable.writtenName {flight : Flight} (hflight : flight.Quotable) :
    SyncHeader.Quotable flight.writtenName := by
  unfold Flight.writtenName
  split
  · exact ⟨by decide, by decide⟩
  · exact hflight.flightName

theorem readKeyedQuotedValues_cons {key value : List Char} (hkey : Wordlike key)
    (hnumber : key.head? ≠ some '#') (hvalue : Quotable value) (gap : List Char)
    (hgap : '"' ∉ gap) (fuel : ℕ) (flight : Flight) (rest : List Char) :
    readKeyedQuotedValues (fuel + 1) flight
        (ofText (key ++ ' ' :: (gap ++ '"' :: (value ++ '"' :: rest)))) =
      readKeyedQuotedValues fuel (flight.assign key (untilNul value)) (ofText rest) := by
  have hquoted := @getQuotedString_ofText (' ' :: gap) value rest (by simpa using hgap) hvalue
  rw [List.cons_append] at hquoted
  rw [readKeyedQuotedValues, readWord_ofText hkey.ne_nil hkey.noBlank (by decide)]
  dsimp only
  rw [hquoted, if_neg hnumber]
  rfl

theorem readKeyedQuotedValues_of_blank {b : Char} (hb : isSpace b = true) (fuel : ℕ)
    (flight : Flight) (text : List Char) :
    readKeyedQuotedValues fuel flight (ofText (b :: text)) =
      readKeyedQuotedValues fuel flight (ofText text) := by
  cases fuel with
  | zero => rfl
  | succ fuel => rw [readKeyedQuotedValues, readWord_of_blank hb, readKeyedQuotedValues]

/-- **The keyed values are read back.** -/
theorem readKeyedQuotedValues_flightText {flight : Flight} (hflight : flight.Quotable) (fuel : ℕ)
    (rest : List Char) :
    readKeyedQuotedValues (fuel + 5) ⟨[], [], [], []⟩ (ofText (flightText flight ++ rest)) =
      pure (flight.read, ofText ('\n' :: rest)) := by
  have htext : flightText flight ++ rest =
      "project".toList ++ ' ' :: ([' '] ++ '"' :: (flight.projectName ++ '"' :: '\n' ::
        ("aircraft".toList ++ ' ' :: ([] ++ '"' :: (flight.tailNumber ++ '"' :: '\n' ::
          ("flight".toList ++ ' ' :: ([] ++ '"' :: (flight.writtenName ++ '"' :: '\n' ::
            ("software_version".toList ++ ' ' :: ([] ++ '"' :: (flight.softwareVersion ++ '"' ::
              '\n' :: (['#'] ++ '\n' :: rest))))))))))))  := by
    unfold flightText Flight.writtenName
    simp only [List.append_assoc]
    rfl
  have hword : ∀ key ∈ ["project".toList, "aircraft".toList, "flight".toList,
      "software_version".toList], Wordlike key ∧ key.head? ≠ some '#' := by
    intro key hmem
    simp only [List.mem_cons, List.not_mem_nil, or_false] at hmem
    rcases hmem with rfl | rfl | rfl | rfl <;>
      exact ⟨⟨by decide, noBlank_of_all (by decide)⟩, by decide⟩
  have hend : ∀ flight, readKeyedQuotedValues (fuel + 1) flight (ofText (['#'] ++ '\n' :: rest)) =
      pure (flight, ofText ('\n' :: rest)) := by
    intro flight
    rw [readKeyedQuotedValues, readWord_ofText (by simp) (noBlank_of_all rfl) (by decide)]
    rfl
  obtain ⟨hproject, hproject'⟩ := hword "project".toList (by simp)
  obtain ⟨haircraft, haircraft'⟩ := hword "aircraft".toList (by simp)
  obtain ⟨hname, hname'⟩ := hword "flight".toList (by simp)
  obtain ⟨hversion, hversion'⟩ := hword "software_version".toList (by simp)
  have hblank : isSpace '\n' = true := by decide
  rw [htext, readKeyedQuotedValues_cons hproject hproject' hflight.projectName _ (by decide),
    readKeyedQuotedValues_of_blank hblank,
    readKeyedQuotedValues_cons haircraft haircraft' hflight.tailNumber _ (by decide),
    readKeyedQuotedValues_of_blank hblank,
    readKeyedQuotedValues_cons hname hname' hflight.writtenName _ (by decide),
    readKeyedQuotedValues_of_blank hblank,
    readKeyedQuotedValues_cons hversion hversion' hflight.softwareVersion _ (by decide),
    readKeyedQuotedValues_of_blank hblank, hend]
  rfl

/-! ## Names that are no words -/

theorem readType_printNat (n : ℕ) :
    readType (printNat n) =
      .error (.message ("unexpected variable type: ".toList ++ printNat n)) := by
  have hnot : ∀ c, isDigitOf 10 c = false → printNat n ≠ [c] := by
    intro c hc heq
    have hdigit := isDigitOf_of_mem_printNat (n := n) (c := c) (by simp [heq])
    rw [hc] at hdigit
    cases hdigit
  have hnone : typeOf? (printNat n) = none := by
    unfold typeOf?
    split
    · next heq => exact absurd heq (hnot _ (by decide))
    · next heq => exact absurd heq (hnot _ (by decide))
    · next heq => exact absurd heq (hnot _ (by decide))
    · next heq => exact absurd heq (hnot _ (by decide))
    · rfl
  unfold readType
  rw [hnone]

/-- The type of a variable without a name is taken for the name, and the length for the type. -/
theorem readVariables_of_nil {var : HeaderVariable} (hname : var.name = []) (fuel : ℕ)
    (newvars : List SyncRecordVariable) (vmap : VarMap) (rest : List Char) :
    readVariables (fuel + 1) newvars vmap (ofText ('\n' :: (variableText var ++ rest))) =
      .error (.message ("unexpected variable type: ".toList ++ printNat var.length)) := by
  have htext : ∃ more, variableText var ++ rest = ' ' :: ([typeAbbr var.type] ++ ' ' ::
      (printNat var.length ++ ' ' :: '"' :: more)) := by
    unfold variableText attributesText
    rw [hname]
    simp only [replaceSpaces, List.map_nil, List.nil_append, List.append_assoc, List.cons_append]
    exact ⟨_, rfl⟩
  obtain ⟨more, hmore⟩ := htext
  have hblank : isSpace ' ' = true := by decide
  have hbrace : [typeAbbr var.type] ≠ ['}'] := by cases var.type <;> decide
  have hdigits : ∀ c ∈ printNat var.length, isSpace c = false :=
    fun c hmem => isSpace_of_isDigitOf (isDigitOf_of_mem_printNat hmem)
  rw [hmore, readVariables, readWord_of_blank (by decide), readWord_of_blank hblank,
    readWord_ofText (by simp) (by simp [isSpace_typeAbbr]) hblank]
  dsimp only
  rw [requireMore_ofText, pure_bind, if_neg hbrace]
  unfold readVariable
  rw [readWord_of_blank hblank, readWord_ofText (printNat_ne_nil _) hdigits hblank]
  dsimp only
  rw [readInt_of_blank hblank, readInt_of_endsNumber isSpace_quote endsNumber_quote]
  dsimp only
  rw [readType_printNat]
  rfl

/-- A variable with the name of a brace ends the section. -/
theorem readVariables_of_brace {var : HeaderVariable} (hname : var.name = ['}']) (fuel : ℕ)
    (newvars : List SyncRecordVariable) (vmap : VarMap) (rest : List Char) :
    readVariables (fuel + 1) newvars vmap (ofText ('\n' :: (variableText var ++ rest))) =
      pure (newvars, vmap, ofText (attributesText var ++ rest)) := by
  have htext : variableText var ++ rest = '}' :: ' ' :: (attributesText var ++ rest).tail := by
    unfold variableText
    rw [hname]
    rfl
  rw [htext, readVariables_brace _ _ _ (by decide)]
  rfl

theorem expectWord_typeAbbr {word expect before : String} {type : VariableType}
    (hword : [typeAbbr type] ≠ word.toList) (rest : List Char) :
    expectWord word expect before (ofText (' ' :: typeAbbr type :: ' ' :: rest)) =
      .error (.expected expect.toList (before.toList ++ [typeAbbr type])) := by
  have hread : (ofText (typeAbbr type :: ' ' :: rest)).readWord =
      ([typeAbbr type], ofText (' ' :: rest)) :=
    readWord_singleton (isSpace_typeAbbr type) (by decide)
  unfold expectWord
  rw [readWord_of_blank (by decide), hread]
  dsimp only
  rw [decide_eq_false hword, Bool.and_false]
  rfl

end Nidas.Dynld.SyncHeader
