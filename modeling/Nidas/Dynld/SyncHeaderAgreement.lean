import Nidas.Dynld.SyncHeaderRoundTrip

/-!
# When writer and reader agree

The layout that `init` computes is what `SyncRecordReader::scanHeader` finds in the header that
`createHeader` writes, if all variables have a positive rate and none has the name of a mark of the
grammar (`scanHeader_agrees_iff`).  Variables without a positive rate are in the header, but not in
a rate group, and the reader insists on one for each of them.
-/

namespace Nidas.Dynld.SyncHeader

open Lib TextStream

variable {α : Type*}

/-- What the reader has found is the layout of the source. -/
structure Agrees (vars : List HeaderVariable) (source : SyncSource α) (header : Header) : Prop where
  names : header.vars.map SyncRecordVariable.name = vars.map HeaderVariable.name
  numDataValues : header.numDataValues = source.window.recSize
  places : ∀ sinfo ∈ source.infos, ∀ (k : ℕ) (var : HeaderVariable),
    (variablesIn vars sinfo)[k]? = some var → ∀ record ∈ header.vars, record.name = var.name →
      ∃ index, sinfo.varSRIndex[k]? = some index ∧ record.syncRecOffset = index ∧
        record.lagOffset = sinfo.sampleSRIndex

@[simp] theorem placed_name (places : Places) (record : SyncRecordVariable) :
    (placed places record).name = record.name := by
  unfold placed
  split <;> rfl

section

variable {flight : Flight} {vars : List HeaderVariable} {source : SyncSource α}

/-! ## Names that are read -/

/-- The header up to its end. -/
theorem exists_scanHeader_end (hflight : flight.Quotable) (hvars : ∀ var ∈ vars, Writable var)
    (hnodup : (vars.map HeaderVariable.name).Nodup)
    (hnames : ∀ var ∈ vars, Wordlike var.name ∧ var.name ≠ ['}'] ∧ var.name ≠ [';'])
    (hlaid : LaidOutFor vars source) (hfits : source.window.recSize < 2 ^ 31) :
    ∃ read after,
      List.Forall₂ ReadAs vars read ∧
      Tracks read (placeSamples vars source.infos fun _ => none) after ∧
      after.offset = source.window.recSize ∧
      scanHeader (headerData flight vars source.infos) =
        endHeader flight.read after ⟨'}' :: '\n' :: ['\x00'], false, true⟩ := by
  obtain ⟨read, fuel, hread, hfuel, hscan⟩ := exists_scanHeader_rates hflight hvars
    (fun var hvar => ⟨(hnames var hvar).1, (hnames var hvar).2.1⟩) source.infos
  have hof := readOf_of_forall₂ hnodup hread
  have htracks := tracks_registerAll hof.nodup 0 0
  rw [map_name_of_forall₂ hread] at htracks
  obtain ⟨after, hrates, hafter, hoffset⟩ := exists_readRates hof hnodup
    (fun var hvar => ⟨(hnames var hvar).1, (hnames var hvar).2.2⟩) hlaid.grouped hlaid.distinct
    htracks (fun sinfo _ var _ => rfl) hlaid.contiguous hfits hfuel ('\n' :: ['\x00'])
  refine ⟨read, after, hread, hafter, hoffset, ?_⟩
  rw [hscan, hrates]
  rfl

/-- The place of a variable is the one that `init` has assigned to it. -/
theorem place_eq (hnodup : (vars.map HeaderVariable.name).Nodup) (hlaid : LaidOutFor vars source)
    {sinfo : SyncInfo} (hsinfo : sinfo ∈ source.infos) {k : ℕ} {var : HeaderVariable}
    (hvar : (variablesIn vars sinfo)[k]? = some var) :
    ∃ index, sinfo.varSRIndex[k]? = some index ∧
      placeSamples vars source.infos (fun _ => none) var.name =
        some ⟨sinfo.rate, index, sinfo.sampleSRIndex⟩ := by
  refine ⟨_, ?_, placeSamples_eq hnodup hlaid.distinct hsinfo hvar⟩
  have hgroup := hlaid.grouped sinfo hsinfo
  have hk : k < (variablesIn vars sinfo).length := (List.getElem?_eq_some_iff.mp hvar).1
  rw [hlaid.indices sinfo hsinfo, getElem?_offsets _ _ _ _ (by simpa [hgroup.varLengths] using hk),
    hgroup.varLengths, ← List.map_take]

/-- Every variable with a positive rate has been found. -/
theorem exists_scanHeader_ok (hflight : flight.Quotable) (hvars : ∀ var ∈ vars, Writable var)
    (hnodup : (vars.map HeaderVariable.name).Nodup)
    (hnames : ∀ var ∈ vars, Wordlike var.name ∧ var.name ≠ ['}'] ∧ var.name ≠ [';'])
    (hpos : ∀ var ∈ vars, 0 < roundFloat var.rate)
    (hlaid : LaidOutFor vars source) (hfits : source.window.recSize < 2 ^ 31) :
    ∃ read header,
      List.Forall₂ ReadAs vars read ∧
      scanHeader (headerData flight vars source.infos) = .ok header ∧
      header.flight = flight.read ∧
      header.vars = read.map (placed (placeSamples vars source.infos fun _ => none)) ∧
      Agrees vars source header := by
  obtain ⟨read, after, hread, htracks, hoffset, hscan⟩ :=
    exists_scanHeader_end hflight hvars hnodup hnames hlaid hfits
  have hplace : ∀ record ∈ read,
      (placeSamples vars source.infos (fun _ => none) record.name).isSome := by
    intro record hmem
    have hname : record.name ∈ vars.map HeaderVariable.name := by
      rw [← map_name_of_forall₂ hread]
      exact List.mem_map_of_mem hmem
    obtain ⟨var, hvar, hsame⟩ := List.mem_map.mp hname
    obtain ⟨sinfo, hsinfo, hin⟩ := hlaid.covers var hvar (hpos var hvar)
    obtain ⟨k, hk⟩ := List.mem_iff_getElem?.mp hin
    obtain ⟨index, -, hplaced⟩ := place_eq hnodup hlaid hsinfo hk
    rw [← hsame, hplaced]
    rfl
  refine ⟨read, ⟨flight.read, after.newvars, after.offset⟩, hread, ?_, rfl, htracks.newvars, ?_⟩
  · rw [hscan, endHeader_brace (htracks.left_eq_nil hplace) (by decide)]
    rfl
  · constructor
    case names =>
      rw [htracks.newvars, List.map_map, ← map_name_of_forall₂ hread]
      exact List.map_congr_left fun record _ => placed_name _ record
    case numDataValues => exact hoffset
    case places =>
      intro sinfo hsinfo k var hvar record hrecord hname
      obtain ⟨index, hindex, hplaced⟩ := place_eq hnodup hlaid hsinfo hvar
      rw [htracks.newvars] at hrecord
      obtain ⟨first, hfirst, rfl⟩ := List.mem_map.mp hrecord
      rw [placed_name] at hname
      refine ⟨index, hindex, ?_⟩
      unfold placed
      rw [hname, hplaced]
      exact ⟨rfl, rfl⟩

/-! ## What the reader refuses -/

/-- A variable without a positive rate is in no rate group. -/
theorem scanHeader_of_nonpos (hflight : flight.Quotable) (hvars : ∀ var ∈ vars, Writable var)
    (hnodup : (vars.map HeaderVariable.name).Nodup)
    (hnames : ∀ var ∈ vars, Wordlike var.name ∧ var.name ≠ ['}'] ∧ var.name ≠ [';'])
    (hlaid : LaidOutFor vars source) (hfits : source.window.recSize < 2 ^ 31)
    {var : HeaderVariable} (hvar : var ∈ vars) (hrate : ¬ 0 < roundFloat var.rate) :
    ∃ error, scanHeader (headerData flight vars source.infos) = .error error := by
  obtain ⟨read, after, hread, htracks, -, hscan⟩ :=
    exists_scanHeader_end hflight hvars hnodup hnames hlaid hfits
  have hnone : placeSamples vars source.infos (fun _ => none) var.name = none := by
    apply placeSamples_of_notMem
    intro sinfo _ hmem
    obtain ⟨other, hother, hsame⟩ := List.mem_map.mp hmem
    obtain ⟨hotherMem, hcond⟩ := List.mem_filter.mp hother
    have heq := List.inj_on_of_nodup_map hnodup hotherMem hvar hsame
    exact hrate (heq ▸ (of_decide_eq_true hcond).2)
  have hname : var.name ∈ read.map SyncRecordVariable.name := by
    rw [map_name_of_forall₂ hread]
    exact List.mem_map_of_mem hvar
  obtain ⟨record, hrecord, hsame⟩ := List.mem_map.mp hname
  obtain ⟨i, hi⟩ := List.mem_iff_getElem?.mp hrecord
  have hlookup := htracks.known i record hi
  rw [hsame, hnone] at hlookup
  obtain ⟨name, herror⟩ := @endHeader_of_left _ flight.read
    ⟨'}' :: '\n' :: ['\x00'], false, true⟩ (left_ne_nil hlookup)
  exact ⟨_, hscan.trans herror⟩

/-- The variable with the name of the semicolon is where it was. -/
def SameSemicolon (placing : Placing) (result : Placing × TextStream) : Prop :=
  lookupKey [';'] result.1.vmap = lookupKey [';'] placing.vmap

theorem outcome_require (condition : Bool) (error : HeaderError) :
    Outcome (fun _ => condition = true) (fun _ => True) (require condition error) := by
  cases condition with
  | true => rfl
  | false => trivial

theorem readGroup_semicolon (rate : ℚ) (lag fuel : ℕ) (placing : Placing) (header : TextStream) :
    Outcome (SameSemicolon placing) (fun _ => True) (readGroup rate lag fuel placing header) := by
  induction fuel generalizing placing header with
  | zero => trivial
  | succ fuel ih =>
      rw [readGroup]
      apply Outcome.bind (outcome_require _ _)
      intro _ _
      split
      · rfl
      · next hname =>
          split
          · trivial
          · trivial
          · next position var _ =>
              apply (ih _ _).mono _ fun _ htrue => htrue
              intro result hresult
              unfold SameSemicolon at hresult ⊢
              rw [hresult]
              exact lookupKey_insertKey_of_ne (Ne.symm hname)

/-- No group has it. -/
theorem readRates_semicolon (fuel lag : ℕ) (placing : Placing) (header : TextStream) :
    Outcome (SameSemicolon placing) (fun _ => True) (readRates fuel lag placing header) := by
  induction fuel generalizing lag placing header with
  | zero => trivial
  | succ fuel ih =>
      rw [readRates]
      dsimp only
      split
      · rfl
      · apply Outcome.bind (outcome_require _ _)
        intro _ _
        apply Outcome.bind (readGroup_semicolon _ _ _ _ _)
        intro group hgroup
        apply (ih _ _ _).mono _ fun _ htrue => htrue
        exact fun result hresult => hresult.trans hgroup

/-- A semicolon ends the group that it is in. -/
theorem scanHeader_of_semicolon (hflight : flight.Quotable) (hvars : ∀ var ∈ vars, Writable var)
    (hnodup : (vars.map HeaderVariable.name).Nodup)
    (hnames : ∀ var ∈ vars, Wordlike var.name ∧ var.name ≠ ['}'])
    {var : HeaderVariable} (hvar : var ∈ vars) (hname : var.name = [';'])
    (infos : List SyncInfo) :
    ∃ error, scanHeader (headerData flight vars infos) = .error error := by
  obtain ⟨read, fuel, -, -, hscan⟩ := exists_scanHeader_rates hflight hvars hnames infos
  obtain ⟨i, hi⟩ := List.mem_iff_getElem?.mp (List.mem_map_of_mem hvar)
  have hbefore : lookupKey [';'] (registerAll 0 [] (vars.map HeaderVariable.name)) =
      some (some (0 + i)) := by
    rw [← hname]
    exact registerAll_getElem? hnodup hi
  rcases (readRates_semicolon fuel 0
      ⟨read, registerAll 0 [] (vars.map HeaderVariable.name), 0, 0⟩
      (ofText ('\n' :: (infos.flatMap (rateText vars) ++ '}' :: '\n' :: ['\x00'])))).cases
    with ⟨result, hresult, hsame⟩ | ⟨error, herror, -⟩
  · obtain ⟨name, herror⟩ := @endHeader_of_left _ flight.read result.2
      (left_ne_nil (hsame.trans hbefore))
    rw [hscan, hresult]
    exact ⟨_, herror⟩
  · rw [hscan, herror]
    exact ⟨error, rfl⟩

/-- The first name that is no word, or that is the brace. -/
theorem exists_first {vars : List HeaderVariable}
    (hbad : ∃ var ∈ vars, var.name = [] ∨ var.name = ['}']) :
    ∃ before var after, vars = before ++ var :: after ∧ (var.name = [] ∨ var.name = ['}']) ∧
      ∀ other ∈ before, other.name ≠ [] ∧ other.name ≠ ['}'] := by
  induction vars with
  | nil =>
      obtain ⟨var, hvar, -⟩ := hbad
      cases hvar
  | cons first vars ih =>
      by_cases hfirst : first.name = [] ∨ first.name = ['}']
      · exact ⟨[], first, vars, rfl, hfirst, fun other hother => nomatch hother⟩
      · have hrest : ∃ var ∈ vars, var.name = [] ∨ var.name = ['}'] := by
          obtain ⟨var, hvar, hname⟩ := hbad
          rcases List.mem_cons.mp hvar with rfl | hmem
          · exact absurd hname hfirst
          · exact ⟨var, hmem, hname⟩
        obtain ⟨before, var, after, rfl, hname, hbefore⟩ := ih hrest
        refine ⟨first :: before, var, after, rfl, hname, ?_⟩
        exact List.forall_mem_cons.mpr ⟨not_or.mp hfirst, hbefore⟩

/-- The line of a variable without a name, or with the name of the brace, is not read as one. -/
theorem scanHeader_of_noName (hflight : flight.Quotable) (hvars : ∀ var ∈ vars, Writable var)
    (hblanks : ∀ var ∈ vars, ∀ c ∈ var.name, isSpace c = false)
    (hbad : ∃ var ∈ vars, var.name = [] ∨ var.name = ['}']) (infos : List SyncInfo) :
    ∃ error, scanHeader (headerData flight vars infos) = .error error := by
  obtain ⟨before, var, after, rfl, hname, hbefore⟩ := exists_first hbad
  obtain ⟨total, htotal, hscan⟩ :=
    @exists_scanHeader flight (before ++ var :: after) hflight infos
  obtain ⟨fuel, rfl⟩ : ∃ fuel, total = fuel + 1 + before.length := by
    rw [List.length_append, List.length_cons] at htotal
    exact ⟨total - 1 - before.length, by omega⟩
  rw [List.forall_mem_append] at hvars hblanks
  obtain ⟨rest, hrest⟩ : ∃ rest, rest = after.flatMap variableText ++ '}' :: '\n' ::
    ratesText (before ++ var :: after) infos := ⟨_, rfl⟩
  have htext : (before ++ var :: after).flatMap variableText ++ '}' :: '\n' ::
      ratesText (before ++ var :: after) infos =
        before.flatMap variableText ++ (variableText var ++ rest) := by
    rw [hrest, List.flatMap_append, List.flatMap_cons]
    simp only [List.append_assoc]
  obtain ⟨read, -, hlines⟩ := exists_readVariables hvars.1
    (fun other hmem => ⟨⟨(hbefore other hmem).1, hblanks.1 other hmem⟩, (hbefore other hmem).2⟩)
    (fuel + 1) [] [] (variableText var ++ rest)
  rw [hscan, htext, hlines]
  rcases hname with hnil | hbrace
  · rw [readVariables_of_nil hnil]
    exact ⟨_, rfl⟩
  · rw [readVariables_of_brace hbrace, pure_bind]
    have hattributes : attributesText var ++ rest =
        ' ' :: typeAbbr var.type :: ' ' :: (attributesText var ++ rest).drop 3 := rfl
    have hword : [typeAbbr var.type] ≠ "rates".toList := by cases var.type <;> decide
    unfold scanRates
    dsimp only
    rw [hattributes, expectWord_typeAbbr hword]
    exact ⟨_, rfl⟩

end

/-- **The layout is read back from the header** exactly if every variable has a positive rate and
none has the name of a mark of the grammar. -/
theorem scanHeader_agrees_iff {flight : Flight} {vars : List HeaderVariable}
    {source : SyncSource α} (hflight : flight.Quotable) (hvars : ∀ var ∈ vars, Writable var)
    (hnodup : (vars.map HeaderVariable.name).Nodup)
    (hblanks : ∀ var ∈ vars, ∀ c ∈ var.name, isSpace c = false) (hrates : RatesReadBack vars)
    (hinit : SyncSource.init (vars.map HeaderVariable.toTaggedVariable) = .ok source)
    (hfits : source.window.recSize < 2 ^ 31) :
    (∃ header, scanHeader (headerData flight vars source.infos) = .ok header ∧
        Agrees vars source header) ↔
      ∀ var ∈ vars, 0 < roundFloat var.rate ∧ var.name ∉ [[], ['}'], [';']] := by
  have hlaid := laidOutFor_init hinit hrates
  constructor
  · rintro ⟨header, hscan, -⟩
    have hok : ∀ error, scanHeader (headerData flight vars source.infos) ≠ .error error := by
      intro error herror
      rw [hscan] at herror
      cases herror
    by_cases hbad : ∃ var ∈ vars, var.name = [] ∨ var.name = ['}']
    · obtain ⟨error, herror⟩ := scanHeader_of_noName hflight hvars hblanks hbad source.infos
      exact absurd herror (hok error)
    · have hnames : ∀ var ∈ vars, Wordlike var.name ∧ var.name ≠ ['}'] := by
        intro var hvar
        have hname := not_or.mp fun hname => hbad ⟨var, hvar, hname⟩
        exact ⟨⟨hname.1, hblanks var hvar⟩, hname.2⟩
      have hsemicolon : ∀ var ∈ vars, var.name ≠ [';'] := by
        intro var hvar hname
        obtain ⟨error, herror⟩ :=
          scanHeader_of_semicolon hflight hvars hnodup hnames hvar hname source.infos
        exact hok error herror
      intro var hvar
      constructor
      · by_contra hrate
        obtain ⟨error, herror⟩ := scanHeader_of_nonpos hflight hvars hnodup
          (fun var hvar => ⟨(hnames var hvar).1, (hnames var hvar).2, hsemicolon var hvar⟩) hlaid
          hfits hvar hrate
        exact hok error herror
      · have hname := hnames var hvar
        simp [hname.1.ne_nil, hname.2, hsemicolon var hvar]
  · intro hgood
    have hnames : ∀ var ∈ vars, Wordlike var.name ∧ var.name ≠ ['}'] ∧ var.name ≠ [';'] := by
      intro var hvar
      obtain ⟨hnil, hbrace, hsemicolon⟩ :
          var.name ≠ [] ∧ var.name ≠ ['}'] ∧ var.name ≠ [';'] := by
        simpa using (hgood var hvar).2
      exact ⟨⟨hnil, hblanks var hvar⟩, hbrace, hsemicolon⟩
    obtain ⟨read, header, -, hscan, -, -, hagrees⟩ := exists_scanHeader_ok hflight hvars hnodup
      hnames (fun var hvar => (hgood var hvar).1) hlaid hfits
    exact ⟨header, hscan, hagrees⟩

/-- What is known of a variable that was read: its attributes, and its place in the record. -/
def FoundAs (vars : List HeaderVariable) (infos : List SyncInfo) (var : HeaderVariable)
    (record : SyncRecordVariable) : Prop :=
  ∃ sinfo ∈ infos, ∃ (k index : ℕ), (variablesIn vars sinfo)[k]? = some var ∧
    sinfo.varSRIndex[k]? = some index ∧
    record = { readOf var var.readConverter with
      rate := sinfo.rate
      syncRecOffset := index
      lagOffset := sinfo.sampleSRIndex }

def arctic : Flight :=
  ⟨"ARCTIC".toList, "N130AR".toList, "rf01".toList, "v2".toList⟩

/-- Ten values a second, with a calibration. -/
def temperature : HeaderVariable where
  id := 5
  rate := 10
  length := 1
  position := 0
  name := "ATX".toList
  units := "degC".toList
  longName := "Temperature".toList
  converter := some
    { conversion := .polynomial [-1 / 2, 3 / 2]
      units := "degC".toList
      calFile := some ("ATX.dat".toList, "/cal".toList) }

/-- A variable whose sample has no rate. -/
def status : HeaderVariable where
  id := 6
  rate := 0
  length := 1
  position := 0
  name := "STATUS".toList
  units := []
  longName := "Status".toList

theorem quotable_arctic : arctic.Quotable := by
  refine ⟨⟨?_, ?_⟩, ⟨?_, ?_⟩, ⟨?_, ?_⟩, ⟨?_, ?_⟩⟩ <;> decide

theorem writable_of_test : ∀ var ∈ [temperature, status], Writable var := by
  intro var hvar
  have htexts : ∀ var ∈ [temperature, status], ('"' ∉ var.units ∧ var.units.length < 512) ∧
      ('"' ∉ var.longName ∧ var.longName.length < 512) ∧ var.length < 2 ^ 31 := by
    decide
  have hconverters : ∀ var ∈ [temperature, status], ∀ conv ∈ var.converter,
      ('"' ∉ conv.units ∧ conv.units.length < 512) ∧ ∀ cfile ∈ conv.calFile,
        ('"' ∉ cfile.1 ∧ cfile.1.length < 512) ∧ ('"' ∉ cfile.2 ∧ cfile.2.length < 512) := by
    decide
  obtain ⟨hunits, hlongName, hlength⟩ := htexts var hvar
  constructor
  case units => exact ⟨hunits.1, hunits.2⟩
  case longName => exact ⟨hlongName.1, hlongName.2⟩
  case converter =>
    intro conv hconv
    obtain ⟨hconvUnits, -⟩ := hconverters var hvar conv hconv
    exact ⟨hconvUnits.1, hconvUnits.2⟩
  case calFile =>
    intro conv hconv cfile hcfile
    obtain ⟨-, hfiles⟩ := hconverters var hvar conv hconv
    obtain ⟨hfile, hpath⟩ := hfiles cfile hcfile
    exact ⟨⟨hfile.1, hfile.2⟩, ⟨hpath.1, hpath.2⟩⟩
  case length => exact hlength

theorem ratesReadBack_of_test : RatesReadBack [temperature, status] := by
  unfold RatesReadBack
  decide +kernel

theorem exists_init_temperature :
    ∃ source : SyncSource ℕ, SyncSource.init [temperature.toTaggedVariable] = .ok source ∧
      source.window.recSize = 11 := by
  have hrun : (SyncSource.init [temperature.toTaggedVariable] :
      Except SyncFault (SyncSource ℕ)).map (fun source => source.window.recSize) = .ok 11 := by
    decide +kernel
  cases hinit : (SyncSource.init [temperature.toTaggedVariable] :
      Except SyncFault (SyncSource ℕ)) with
  | error fault =>
      rw [hinit] at hrun
      cases hrun
  | ok source =>
      rw [hinit] at hrun
      simp only [Except.map, Except.ok.injEq] at hrun
      exact ⟨source, rfl, hrun⟩

/-- Names that are words and no marks. -/
theorem wordlike_of_test : ∀ var ∈ [temperature, status],
    Wordlike var.name ∧ var.name ≠ ['}'] ∧ var.name ≠ [';'] := by
  have hwords : ∀ var ∈ [temperature, status], var.name ≠ [] ∧
      (var.name.all fun c => !isSpace c) = true ∧ var.name ≠ ['}'] ∧ var.name ≠ [';'] := by
    decide
  intro var hvar
  obtain ⟨hnil, hblanks, hmarks⟩ := hwords var hvar
  exact ⟨⟨hnil, noBlank_of_all hblanks⟩, hmarks⟩

theorem mem_of_temperature {var : HeaderVariable} (hvar : var ∈ [temperature]) :
    var ∈ [temperature, status] := List.mem_cons.mpr (.inl (List.mem_singleton.mp hvar))

/-- The header of one variable is read. -/
theorem scanHeader_agrees_temperature :
    ∃ source : SyncSource ℕ,
      SyncSource.init [temperature.toTaggedVariable] = .ok source ∧
      ∃ header, scanHeader (headerData arctic [temperature] source.infos) = .ok header ∧
        Agrees [temperature] source header := by
  obtain ⟨source, hinit, hsize⟩ := exists_init_temperature
  refine ⟨source, hinit, (scanHeader_agrees_iff quotable_arctic
    (fun var hvar => writable_of_test var (mem_of_temperature hvar)) (by decide)
    (fun var hvar => (wordlike_of_test var (mem_of_temperature hvar)).1.noBlank)
    (fun var hvar => ratesReadBack_of_test var (mem_of_temperature hvar)) hinit
    (by rw [hsize]; decide)).mpr ?_⟩
  decide +kernel

/-- The header names `STATUS`, and no rate group does. -/
theorem scanHeader_status :
    arctic.Quotable ∧ (∀ var ∈ [temperature, status], Writable var ∧ Wordlike var.name) ∧
      ([temperature, status].map HeaderVariable.name).Nodup ∧
      RatesReadBack [temperature, status] ∧
      ∃ source : SyncSource ℕ,
        SyncSource.init ([temperature, status].map HeaderVariable.toTaggedVariable) =
          .ok source ∧
        source.window.recSize = 11 ∧
        scanHeader (headerData arctic [temperature, status] source.infos) =
          .error (.message "variable STATUS not found in a rate group".toList) := by
  refine ⟨quotable_arctic, ?_, by decide, ratesReadBack_of_test, ?_⟩
  · exact fun var hvar => ⟨writable_of_test var hvar, (wordlike_of_test var hvar).1⟩
  · have hrun : (SyncSource.init ([temperature, status].map HeaderVariable.toTaggedVariable) :
        Except SyncFault (SyncSource ℕ)).map (fun source => (source.window.recSize,
          scanHeader (headerData arctic [temperature, status] source.infos))) =
        .ok (11, .error (.message "variable STATUS not found in a rate group".toList)) := by
      decide +kernel
    cases hinit : (SyncSource.init ([temperature, status].map HeaderVariable.toTaggedVariable) :
        Except SyncFault (SyncSource ℕ)) with
    | error fault =>
        rw [hinit] at hrun
        cases hrun
    | ok source =>
        rw [hinit] at hrun
        simp only [Except.map, Except.ok.injEq, Prod.mk.injEq] at hrun
        exact ⟨source, rfl, hrun⟩

end Nidas.Dynld.SyncHeader
