import Mathlib.Data.Char
import Mathlib.Data.List.Lex
import Nidas.Dynld.SyncInit
import Nidas.Lib.KeyedList
import Nidas.Lib.MachineInt
import Nidas.Lib.TextStream

/-!
# The header of the sync records

`SyncRecordSource` sends a header in front of its records (`raf/SyncRecordSource.cc`): the variables
with their attributes, and then the names of the variables in groups of one sample, each behind its
rate.  The layout of the records is not in it.  `SyncRecordReader` (`raf/SyncRecordReader.cc`) reads
the groups and finds out the layout from the rates and the lengths of the variables.

Texts are lists of characters.  Numbers of type `float` are rational; the calibration coefficients
are finite.  The conversion of a rate to `int` is that of an integer of any size.
-/

namespace Nidas.Dynld.SyncHeader

open Lib Core

/-! ## Writing -/

/-- `Linear`, `Polynomial`, or another `VariableConverter` -/
inductive Conversion where
  | linear (intercept slope : ℚ)
  | polynomial (coefs : List ℚ)
  | other
  deriving DecidableEq, Repr

/-- What is used of a `VariableConverter`, with the file and the path of its `CalFile`. -/
structure Converter where
  conversion : Conversion
  units : List Char
  calFile : Option (List Char × List Char) := none
  deriving DecidableEq, Repr

/-- What is used of a `Variable` and its tag. -/
structure HeaderVariable extends TaggedVariable where
  name : List Char
  type : VariableType := .continuous
  units : List Char
  longName : List Char
  converter : Option Converter := none
  deriving DecidableEq, Repr

/-- What is used of the `Project` and the `Aircraft`. -/
structure Flight where
  projectName : List Char
  tailNumber : List Char
  flightName : List Char
  softwareVersion : List Char
  deriving DecidableEq, Repr

/-- `replace_util` of spaces -/
def replaceSpaces (name : List Char) : List Char := name.map fun c => if c = ' ' then '_' else c

/-- The abbreviation of a variable type. -/
def typeAbbr : VariableType → Char
  | .continuous => 'n'
  | .counter => 'c'
  | .clock => 't'
  | _ => 'o'

def coefficientText : Conversion → List Char
  | .linear intercept slope => printGeneral 16 intercept ++ ' ' :: printGeneral 16 slope
  | .polynomial coefs => coefs.flatMap fun coef => printGeneral 16 coef ++ [' ']
  | .other => []

def calFileText : Option (List Char × List Char) → List Char
  | none => []
  | some (file, path) =>
      "file=\"".toList ++ file ++ "\" path=\"".toList ++ path ++ "\"".toList

/-- The part of a line that depends on the converter. -/
def converterText (var : HeaderVariable) : List Char :=
  match var.converter with
  | none => " \"".toList ++ var.units ++ "\"".toList
  | some conv =>
      coefficientText conv.conversion ++ " \"".toList ++ conv.units ++ "\" ".toList ++
        calFileText conv.calFile

/-- What is behind the name of a variable. -/
def attributesText (var : HeaderVariable) : List Char :=
  ' ' :: typeAbbr var.type :: ' ' :: printNat var.length ++ " \"".toList ++ var.units ++
    "\" \"".toList ++ var.longName ++ "\" ".toList ++ converterText var ++ ";\n".toList

/-- The line of a variable. -/
def variableText (var : HeaderVariable) : List Char :=
  replaceSpaces var.name ++ attributesText var

/-- `SyncInfo::variables`: the variables that `init` has added to the `SyncInfo`. -/
def variablesIn (vars : List HeaderVariable) (sinfo : SyncInfo) : List HeaderVariable :=
  vars.filter fun var => var.id = sinfo.id ∧ 0 < roundFloat var.rate

/-- The line of a sample: its rate and the names of its variables. -/
def rateText (vars : List HeaderVariable) (sinfo : SyncInfo) : List Char :=
  printFixed 5 sinfo.rate ++ ' ' ::
    (variablesIn vars sinfo).flatMap (fun var => replaceSpaces var.name ++ [' ']) ++ ";\n".toList

/-- The keyed values. -/
def flightText (flight : Flight) : List Char :=
  "project  \"".toList ++ flight.projectName ++ "\"\naircraft \"".toList ++ flight.tailNumber ++
    "\"\nflight \"".toList ++
    (if flight.flightName.length = 0 then "unknown_flight".toList else flight.flightName) ++
    "\"\nsoftware_version \"".toList ++ flight.softwareVersion ++ "\"\n#\n".toList

/-- `SyncRecordSource::createHeader` -/
def createHeader (flight : Flight) (vars : List HeaderVariable) (infos : List SyncInfo) :
    List Char :=
  flightText flight ++ "variables \x7b\n".toList ++ vars.flatMap variableText ++ "\x7d\n".toList ++
    "rates \x7b\n".toList ++ infos.flatMap (rateText vars) ++ "\x7d\n".toList

/-- The data of the sample that `sendSyncHeader` distributes: the text with its end. -/
def headerData (flight : Flight) (vars : List HeaderVariable) (infos : List SyncInfo) :
    List Char :=
  createHeader flight vars infos ++ ['\x00']

/-! ## Reading -/

/-- A `SyncRecHeaderException` that ends `scanHeader`, for what was expected or with a message, one
that it does not catch, or an iteration too many. -/
inductive HeaderError where
  | expected (expect got : List Char)
  | message (text : List Char)
  | uncaught (expect got : List Char)
  | endless
  deriving DecidableEq, Repr

/-- The `Polynomial` of a variable. -/
structure ReadConverter where
  coefs : List ℚ
  units : List Char
  calFile : Option (List Char × List Char)
  deriving DecidableEq, Repr

/-- `SyncRecordVariable`, with the rate of its tag. -/
structure SyncRecordVariable where
  name : List Char
  type : VariableType
  length : ℕ
  units : List Char
  longName : List Char
  converter : Option ReadConverter := none
  rate : ℚ := 0
  syncRecOffset : ℤ := 0
  lagOffset : ℤ := 0
  deriving DecidableEq, Repr

/-- `varmap`: the variables by their names, as positions in `newvars`, or null pointers for those
that have been found in a rate group. -/
abbrev VarMap := List (List Char × Option ℕ)

/-- What `scanHeader` sets. -/
structure Header where
  flight : Flight
  vars : List SyncRecordVariable
  numDataValues : ℕ
  deriving DecidableEq, Repr

/-- A condition without which `scanHeader` is left. -/
def require (condition : Bool) (error : HeaderError) : Except HeaderError Unit :=
  if condition then .ok () else .error error

/-- The text does not end here: `goto eof`. -/
def requireMore (section' : String) (header : TextStream) : Except HeaderError Unit :=
  require (!header.eof) (.expected section'.toList "end of header".toList)

/-- A word that must be there. -/
def expectWord (word expect before : String) (header : TextStream) :
    Except HeaderError TextStream := do
  let (tmpstr, header) := header.readWord
  require (!header.eof && tmpstr = word.toList) (.expected expect.toList (before.toList ++ tmpstr))
  pure header

/-- A text up to the end of a string. -/
def untilNul (text : List Char) : List Char := text.takeWhile (· ≠ '\x00')

/-- `SyncRecordReader::getQuotedString` -/
def getQuotedString (istr : TextStream) : List Char × TextStream :=
  let istr := istr.ignoreTo '"'
  if istr.fail then ([], istr)
  else
    let (val, istr) := istr.getline 512 '"'
    (untilNul val, istr)

/-- The assignment of a keyed value. -/
def Flight.assign (flight : Flight) (key value : List Char) : Flight :=
  if key = "project".toList then { flight with projectName := value }
  else if key = "aircraft".toList then { flight with tailNumber := value }
  else if key = "flight".toList then { flight with flightName := value }
  else if key = "software_version".toList then { flight with softwareVersion := value }
  else flight

/-- `SyncRecordReader::readKeyedQuotedValues` -/
def readKeyedQuotedValues : ℕ → Flight → TextStream → Except HeaderError (Flight × TextStream)
  | 0, _, _ => .error .endless
  | fuel + 1, flight, header => do
      let (key, header) := header.readWord
      require (!header.eof) (.message "end of header when reading keyed values".toList)
      if key.head? = some '#' then pure (flight, header)
      else do
        let (value, header) := getQuotedString header
        require (!header.eof)
          (.message ("end of header when reading value for key=".toList ++ key))
        require (!header.fail)
          (.message ("failure reading quoted field from header for key=".toList ++ key))
        readKeyedQuotedValues fuel (flight.assign key value) header

/-- The type of an abbreviation. -/
def typeOf? : List Char → Option VariableType
  | ['n'] => some .continuous
  | ['c'] => some .counter
  | ['t'] => some .clock
  | ['o'] => some .other
  | _ => none

def readType (vtypestr : List Char) : Except HeaderError VariableType :=
  match typeOf? vtypestr with
  | some vtype => .ok vtype
  | none => .error (.message ("unexpected variable type: ".toList ++ vtypestr))

/-- A character, which is no blank because they have been skipped. -/
def readNonBlank (nextchar : Char) (header : TextStream) : Except HeaderError (Char × TextStream) :=
  do
    let (nextchar, header) := header.readChar nextchar
    requireMore "variables" header
    pure (nextchar, header)

/-- A keyword of four letters whose first one has been read, and the quoted string behind it. -/
def readKeyword (keyword expect : String) (first : Char) (header : TextStream) :
    Except HeaderError (List Char × TextStream) := do
  let (text, header) := header.getline 4 '='
  requireMore "variables" header
  require (untilNul (first :: text) = keyword.toList)
    (.uncaught expect.toList (untilNul (first :: text)))
  pure (getQuotedString header.clear)

/-- The calibration file, if there is one, and the character behind it. -/
def readCalFile (nextchar : Char) (header : TextStream) :
    Except HeaderError (Option (List Char × List Char) × Char × TextStream) :=
  if nextchar = 'f' then do
    let (calName, header) ← readKeyword "file" "file=" nextchar header
    let (nextchar, header) ← readNonBlank nextchar header
    if nextchar = 'p' then do
      let (calPath, header) ← readKeyword "path" "path=" nextchar header
      let (nextchar, header) ← readNonBlank nextchar header
      pure (some (calName, calPath), nextchar, header)
    else pure (none, nextchar, header)
  else pure (none, nextchar, header)

/-- A variable, behind its name. -/
def readVariable (vname : List Char) (header : TextStream) :
    Except HeaderError (SyncRecordVariable × TextStream) := do
  let (vtypestr, header) := header.readWord
  let (vlen, header) := header.readInt
  requireMore "variables" header
  let vtype ← readType vtypestr
  let (vunits, header) := getQuotedString header
  requireMore "variables" header
  let (vlongname, header) := getQuotedString header
  requireMore "variables" header
  let (coefs, header) := header.readFloats (header.text.length + 1)
  requireMore "variables" header
  let (cunits, header) := getQuotedString header.clear
  requireMore "variables" header
  let (nextchar, header) ← readNonBlank '\x00' header
  let (cfile, nextchar, header) ← readCalFile nextchar header
  require (nextchar = ';') (.expected ";".toList [nextchar])
  pure
    ({ name := vname
       type := vtype
       length := (vlen % 2 ^ 32).toNat
       units := vunits
       longName := vlongname
       converter := if coefs ≠ [] ∨ cfile.isSome then some ⟨coefs, cunits, cfile⟩ else none },
      header)

/-- The section of the variables. -/
def readVariables : ℕ → List SyncRecordVariable → VarMap → TextStream →
    Except HeaderError (List SyncRecordVariable × VarMap × TextStream)
  | 0, _, _, _ => .error .endless
  | fuel + 1, newvars, vmap, header => do
      let (vname, header) := header.readWord
      requireMore "variables" header
      if vname = ['}'] then pure (newvars, vmap, header)
      else do
        let (var, header) ← readVariable vname header
        readVariables fuel (newvars ++ [var]) (insertKey vname (some newvars.length) vmap) header

/-- The variables while the rate groups are read, with `offset` and `groupSize`. -/
structure Placing where
  newvars : List SyncRecordVariable
  vmap : VarMap
  offset : ℕ
  groupSize : ℕ

/-- The variable of a name, with its position in `newvars`; it is a null pointer if it has been
found before. -/
def Placing.find (placing : Placing) (vname : List Char) :
    Option (Option (ℕ × SyncRecordVariable)) :=
  (lookupKey vname placing.vmap).map fun entry => entry.bind fun position =>
    (placing.newvars[position]?).map fun var => (position, var)

/-- The place of a variable of a rate. -/
def Placing.place (placing : Placing) (rate : ℚ) (lagoffset : ℕ) (vname : List Char)
    (position : ℕ) (var : SyncRecordVariable) : Placing :=
  let ndata := toInt32 ((var.length * ⌈rate⌉) % 2 ^ 32)
  { newvars := placing.newvars.set position
      { var with
        rate := rate
        syncRecOffset := toInt32 placing.offset
        lagOffset := toInt32 lagoffset }
    vmap := insertKey vname none placing.vmap
    offset := ((placing.offset + ndata) % 2 ^ 64).toNat
    groupSize := ((placing.groupSize + ndata) % 2 ^ 64).toNat }

/-- The variable names of a rate. -/
def readGroup (rate : ℚ) (lagoffset : ℕ) : ℕ → Placing → TextStream →
    Except HeaderError (Placing × TextStream)
  | 0, _, _ => .error .endless
  | fuel + 1, placing, header => do
      let (vname, header) := header.readWord
      requireMore "rates" header
      if vname = [';'] then pure (placing, header)
      else
        match placing.find vname with
        | none => .error (.message ("variable ".toList ++ vname ++ " not found for rate ".toList ++
            printGeneral 6 rate))
        | some none => .error (.message ("variable ".toList ++ vname ++
            " listed under more than one rate ".toList ++ printGeneral 6 rate))
        | some (some (position, var)) =>
            readGroup rate lagoffset fuel (placing.place rate lagoffset vname position var) header

/-- The rate groups. -/
def readRates : ℕ → ℕ → Placing → TextStream → Except HeaderError (Placing × TextStream)
  | 0, _, _, _ => .error .endless
  | fuel + 1, lagoffset, placing, header => do
      let (rate, header) := header.readFloat
      if header.fail then pure (placing, header)
      else do
        requireMore "rates" header
        let (placing, header) ← readGroup rate lagoffset (header.text.length + 1)
          { placing with offset := (placing.offset + 1) % 2 ^ 64, groupSize := 1 } header
        readRates fuel ((lagoffset + placing.groupSize) % 2 ^ 64) placing header

/-- The variables that have not been found in a rate group. -/
def VarMap.left (vmap : VarMap) : List (List Char) :=
  vmap.filterMap fun entry => entry.2.map fun _ => entry.1

/-- The end of `scanHeader`: the brace behind the rate groups, and the check that all variables have
been found in one. -/
def endHeader (flight : Flight) (placing : Placing) (header : TextStream) :
    Except HeaderError Header :=
  let (tmpstr, header) := header.clear.readWord
  match placing.vmap.left with
  | vname :: _ => .error (.message ("variable ".toList ++ vname ++
      " not found in a rate group".toList))
  | [] => do
      require (!header.eof && tmpstr = ['}']) (.expected "\x7d".toList tmpstr)
      pure ⟨flight, placing.newvars, placing.offset⟩

/-- The part of `scanHeader` behind the section of the variables. -/
def scanRates (flight : Flight) (newvars : List SyncRecordVariable) (vmap : VarMap)
    (header : TextStream) : Except HeaderError Header := do
  let header ← expectWord "rates" "rates \x7b" "" header
  let header ← expectWord "\x7b" "rates \x7b" "rates " header
  let (placing, header) ← readRates (header.text.length + 1) 0 ⟨newvars, vmap, 0, 0⟩ header
  endHeader flight placing header

/-- `SyncRecordReader::scanHeader`.  What it sets besides an exception is left out. -/
def scanHeader (data : List Char) : Except HeaderError Header := do
  let (flight, header) ← readKeyedQuotedValues (data.length + 1) ⟨[], [], [], []⟩ (.ofText data)
  let header ← expectWord "variables" "variables \x7b" "" header
  let header ← expectWord "\x7b" "variables \x7b" "variables " header
  let (newvars, vmap, header) ← readVariables (header.text.length + 1) [] [] header
  scanRates flight newvars vmap header

end Nidas.Dynld.SyncHeader
