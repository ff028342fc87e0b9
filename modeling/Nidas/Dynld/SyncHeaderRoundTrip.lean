import Nidas.Dynld.SyncHeaderRates

/-!
# The layout is read back

What `SyncRecordSource::init` has laid out is what `SyncRecordReader::scanHeader` finds in the
header that `createHeader` writes, if the variables can be told apart from the marks of the grammar
and all of them have a rate.
-/

namespace Nidas.Dynld.SyncHeader

open Lib TextStream

variable {α : Type*}

/-! ## What `init` has laid out -/

theorem BuiltInfo.sampleLength {vars : List TaggedVariable} {sinfo : SyncInfo}
    (hbuilt : BuiltInfo vars sinfo) :
    sinfo.sampleLength = 1 + sinfo.varLengths.sum * sinfo.nSlots.toNat := by
  obtain ⟨first, rest, new, -, hnew, hsinfo⟩ := hbuilt
  unfold SyncInfo.new at hnew
  dsimp only at hnew
  split at hnew
  · cases hnew
  · split at hnew
    · cases hnew
    · cases hnew
      rw [hsinfo, SyncInfo.addAll_eq]
      simp

theorem contiguous_layOut {index : ℕ} {infos : List SyncInfo}
    (hinfos : ∀ sinfo ∈ infos,
      sinfo.sampleLength = 1 + sinfo.varLengths.sum * sinfo.nSlots.toNat) :
    Contiguous index (layOut index infos).1 (layOut index infos).2 := by
  induction infos generalizing index with
  | nil => rfl
  | cons sinfo infos ih =>
      obtain ⟨hfirst, hrest⟩ := List.forall_mem_cons.mp hinfos
      rw [layOut_cons]
      refine ⟨rfl, ?_⟩
      have hnext : index + 1 + (sinfo.shifted index).varLengths.sum *
          (sinfo.shifted index).nSlots.toNat = index + sinfo.sampleLength := by
        rw [hfirst]
        exact Nat.add_assoc _ _ _
      dsimp only
      rw [hnext]
      exact ih hrest

theorem map_variablesIn (vars : List HeaderVariable) (sinfo : SyncInfo) :
    variablesOf sinfo.id (vars.map HeaderVariable.toTaggedVariable) =
      (variablesIn vars sinfo).map HeaderVariable.toTaggedVariable := by
  unfold variablesOf variablesIn
  rw [List.filter_map]
  rfl

/-- A rate that has slots is in the range of the type `float`. -/
theorem rate_lt_of_usecsPerSlot {rate : ℚ} (hpos : 0 < rate) (hslot : usecsPerSlot rate ≠ 0) :
    rate < 2 ^ 128 := by
  by_contra hge
  rw [not_lt] at hge
  have hsmall : 1000000 / rate ≤ 2 ^ (-2 : ℤ) := by
    rw [div_le_iff₀ hpos]
    norm_num at hge ⊢
    linarith
  have hround : usecsPerSample rate ≤ 2 ^ (-2 : ℤ) :=
    roundTo_le_two_pow (by decide) (by positivity) hsmall
  have hnonneg : 0 ≤ usecsPerSample rate := roundTo_nonneg (by positivity)
  apply hslot
  have hfloor : ⌊usecsPerSample rate⌋ = 0 := by
    rw [Int.floor_eq_zero_iff]
    refine ⟨hnonneg, lt_of_le_of_lt hround (by norm_num)⟩
  unfold usecsPerSlot rint
  dsimp only
  rw [hfloor, if_pos]
  refine lt_of_le_of_lt (b := (2 : ℚ) ^ (-2 : ℤ)) (by simpa using hround) (by norm_num)

/-- The rates that are printed are read back. -/
def RatesReadBack (vars : List HeaderVariable) : Prop :=
  ∀ var ∈ vars, 0 < roundFloat var.rate → readBack 5 (roundFloat var.rate) = roundFloat var.rate

/-- What is used of the layout. -/
structure LaidOutFor (vars : List HeaderVariable) (source : SyncSource α) : Prop where
  grouped : ∀ sinfo ∈ source.infos, Grouped vars sinfo
  distinct : source.infos.Pairwise fun first second => first.id ≠ second.id
  contiguous : Contiguous 0 source.infos source.window.recSize
  indices : ∀ sinfo ∈ source.infos, sinfo.varSRIndex =
    offsets sinfo.nSlots.toNat (sinfo.sampleSRIndex + 1) sinfo.varLengths
  covers : ∀ var ∈ vars, 0 < roundFloat var.rate →
    ∃ sinfo ∈ source.infos, var ∈ variablesIn vars sinfo

theorem laidOutFor_init {vars : List HeaderVariable} {source : SyncSource α}
    (hinit : SyncSource.init (vars.map HeaderVariable.toTaggedVariable) = .ok source)
    (hrates : RatesReadBack vars) : LaidOutFor vars source := by
  obtain ⟨⟨infos, hbuilt, hids⟩, hinitial, -⟩ := init_spec hinit
  have hcontiguous : Contiguous 0 source.infos source.window.recSize := by
    unfold SyncSource.init at hinit
    cases hadd : addVariables (vars.map HeaderVariable.toTaggedVariable) [] (-intLimit) with
    | error fault => simp [hadd] at hinit
    | ok built =>
        obtain ⟨built, half⟩ := built
        have hall : Built (vars.map HeaderVariable.toTaggedVariable) built half :=
          built_addVariables built_nil hadd
        simp only [hadd, Except.ok.injEq] at hinit
        subst source
        exact contiguous_layOut fun sinfo hmem => BuiltInfo.sampleLength (hall.info sinfo hmem)
  constructor
  case grouped =>
    intro sinfo hmem
    have h := hinitial sinfo hmem
    obtain ⟨first, rest, hfirst, hrate⟩ := h.exists_first
    have hmemFirst : first ∈ variablesOf sinfo.id (vars.map HeaderVariable.toTaggedVariable) := by
      rw [hfirst]
      exact List.mem_cons_self
    obtain ⟨hvars, hpos⟩ := List.mem_filter.mp hmemFirst
    obtain ⟨var, hvar, rfl⟩ := List.mem_map.mp hvars
    have hpos : 0 < sinfo.rate := by
      rw [hrate]
      exact (of_decide_eq_true hpos).2
    refine ⟨hpos, rate_lt_of_usecsPerSlot hpos (h.dtUsec ▸ h.dtUsec_ne), ?_, h.nSlots, ?_⟩
    · rw [hrate] at hpos ⊢
      exact hrates var hvar hpos
    · rw [h.varLengths, map_variablesIn, List.map_map]
      rfl
  case distinct =>
    have hsorted : (source.infos.map SyncInfo.id).Pairwise (· < ·) := by
      rw [hids, List.pairwise_map]
      exact hbuilt.sorted
    exact (List.pairwise_map.mp hsorted).imp fun hlt => hlt.ne
  case contiguous => exact hcontiguous
  case indices => exact fun sinfo hmem => (hinitial sinfo hmem).laidOut.indices
  case covers =>
    intro var hvar hpos
    obtain ⟨built, hbuiltMem, hid⟩ := hbuilt.covers var.toTaggedVariable
      (List.mem_map_of_mem hvar) hpos
    have hmem : built.id ∈ source.infos.map SyncInfo.id := by
      rw [hids]
      exact List.mem_map_of_mem hbuiltMem
    obtain ⟨sinfo, hsinfo, hsame⟩ := List.mem_map.mp hmem
    refine ⟨sinfo, hsinfo, List.mem_filter.mpr ⟨hvar, ?_⟩⟩
    exact decide_eq_true ⟨(hsame.trans hid).symm, hpos⟩

/-! ## The variables before the rate groups -/

theorem registerAll_inOrder {count : ℕ} {vmap : VarMap} (hvmap : KeysInOrder vmap)
    (names : List (List Char)) : KeysInOrder (registerAll count vmap names) := by
  induction names generalizing count vmap with
  | nil => exact hvmap
  | cons name names ih => exact ih hvmap.insertKey

theorem registerAll_of_notMem {count : ℕ} {vmap : VarMap} {name : List Char}
    {names : List (List Char)} (hname : name ∉ names) :
    lookupKey name (registerAll count vmap names) = lookupKey name vmap := by
  induction names generalizing count vmap with
  | nil => rfl
  | cons first names ih =>
      rw [List.mem_cons, not_or] at hname
      rw [registerAll, ih hname.2, lookupKey_insertKey_of_ne hname.1]

theorem registerAll_getElem? {count i : ℕ} {vmap : VarMap} {name : List Char}
    {names : List (List Char)} (hnames : names.Nodup) (hname : names[i]? = some name) :
    lookupKey name (registerAll count vmap names) = some (some (count + i)) := by
  induction names generalizing count i vmap with
  | nil => simp at hname
  | cons first names ih =>
      rw [List.nodup_cons] at hnames
      cases i with
      | zero =>
          obtain rfl : first = name := by simpa using hname
          rw [registerAll, registerAll_of_notMem hnames.1, lookupKey_insertKey_self]
          rfl
      | succ i =>
          rw [registerAll, ih hnames.2 (by simpa using hname)]
          congr 2
          omega

/-- No variable has been found. -/
theorem tracks_registerAll {read : List SyncRecordVariable}
    (hread : (read.map SyncRecordVariable.name).Nodup) (offset groupSize : ℕ) :
    Tracks read (fun _ => none)
      ⟨read, registerAll 0 [] (read.map SyncRecordVariable.name), offset, groupSize⟩ := by
  constructor
  case newvars => exact (List.map_id' read).symm
  case inOrder =>
    have hnil : KeysInOrder ([] : VarMap) := List.Pairwise.nil
    exact registerAll_inOrder hnil _
  case known =>
    intro i record hrecord
    rw [registerAll_getElem? hread (i := i) (by rw [List.getElem?_map, hrecord]; rfl)]
    simp
  case unknown =>
    intro name hname
    rw [registerAll_of_notMem hname, lookupKey_nil]

/-! ## The end of the header -/

section End

variable {read : List SyncRecordVariable} {places : Places} {placing : Placing}

/-- All variables have been found. -/
theorem Tracks.left_eq_nil (h : Tracks read places placing)
    (hall : ∀ record ∈ read, (places record.name).isSome) : placing.vmap.left = [] := by
  unfold VarMap.left
  apply List.filterMap_eq_nil_iff.mpr
  rintro ⟨name, entry⟩ hmem
  have hlookup := lookupKey_of_mem h.inOrder hmem
  by_cases hname : name ∈ read.map SyncRecordVariable.name
  · obtain ⟨record, hrecord, rfl⟩ := List.mem_map.mp hname
    obtain ⟨i, hi⟩ := List.mem_iff_getElem?.mp hrecord
    rw [h.known i record hi, if_pos (hall record hrecord)] at hlookup
    cases hlookup
    rfl
  · rw [h.unknown name hname] at hlookup
    cases hlookup

/-- A variable is left. -/
theorem left_ne_nil {vmap : VarMap} {name : List Char} {i : ℕ}
    (hlookup : lookupKey name vmap = some (some i)) : vmap.left ≠ [] := by
  intro hnil
  have hnone := List.filterMap_eq_nil_iff.mp hnil _ (mem_of_lookupKey hlookup)
  cases hnone

theorem endHeader_of_left {flight : Flight} {header : TextStream}
    (hleft : placing.vmap.left ≠ []) : ∃ name, endHeader flight placing header =
      .error (.message ("variable ".toList ++ name ++ " not found in a rate group".toList)) := by
  unfold endHeader
  dsimp only
  split
  · exact ⟨_, rfl⟩
  · next hnil => exact absurd hnil hleft

theorem endHeader_brace {flight : Flight} (hleft : placing.vmap.left = []) {c : Char}
    (hc : isSpace c = true) (rest : List Char) :
    endHeader flight placing ⟨'}' :: c :: rest, false, true⟩ =
      pure ⟨flight, placing.newvars, placing.offset⟩ := by
  have hclear : (TextStream.clear ⟨'}' :: c :: rest, false, true⟩).readWord =
      (['}'], ofText (c :: rest)) :=
    readWord_singleton (by decide) hc
  unfold endHeader
  rw [hclear]
  dsimp only
  rw [hleft]
  rfl

end End

/-! ## The whole header -/

section Scan

variable {flight : Flight} {vars : List HeaderVariable}

/-- What is behind the variables. -/
def ratesText (vars : List HeaderVariable) (infos : List SyncInfo) : List Char :=
  "rates".toList ++ ' ' :: ("\x7b".toList ++ '\n' ::
    (infos.flatMap (rateText vars) ++ '}' :: '\n' :: ['\x00']))

/-- The header up to the variables. -/
theorem exists_scanHeader (hflight : flight.Quotable) (infos : List SyncInfo) :
    ∃ fuel, vars.length + infos.length < fuel ∧ scanHeader (headerData flight vars infos) =
      (readVariables fuel [] [] (ofText ('\n' :: (vars.flatMap variableText ++ '}' :: '\n' ::
        ratesText vars infos))) >>= fun result =>
          scanRates flight.read result.1 result.2.1 result.2.2) := by
  obtain ⟨body, hbody⟩ : ∃ body, body =
    vars.flatMap variableText ++ '}' :: '\n' :: ratesText vars infos := ⟨_, rfl⟩
  have htext : headerData flight vars infos =
      flightText flight ++ ("variables".toList ++ ' ' :: ("\x7b".toList ++ '\n' :: body)) := by
    unfold headerData createHeader
    rw [hbody]
    unfold ratesText
    simp only [List.append_assoc]
    rfl
  have hlength : 5 ≤ (headerData flight vars infos).length + 1 := by
    have hword : ("variables".toList).length = 9 := rfl
    rw [htext, List.length_append, List.length_append]
    omega
  obtain ⟨fuel, hfuel⟩ := Nat.exists_eq_add_of_le' hlength
  refine ⟨(ofText ('\n' :: body)).text.length + 1, ?_, ?_⟩
  · have hvars : vars.length ≤ (vars.flatMap variableText).length :=
      length_le_flatMap fun var _ => by simp [variableText, attributesText]
    have hinfos : infos.length ≤ (infos.flatMap (rateText vars)).length :=
      length_le_flatMap fun sinfo _ => by simp [rateText]
    rw [hbody]
    unfold ratesText
    simp only [ofText, List.length_cons, List.length_append]
    omega
  · unfold scanHeader
    rw [hfuel, htext, readKeyedQuotedValues_flightText hflight, pure_bind]
    dsimp only
    rw [expectWord_of_blank (by decide),
      expectWord_ofText _ (by decide) (noBlank_of_all rfl) (by decide), pure_bind,
      expectWord_of_blank (by decide),
      expectWord_ofText _ (by decide) (noBlank_of_all rfl) (by decide), pure_bind, hbody]

/-- The records have the names and the lengths of the variables. -/
theorem map_name_of_forall₂ {read : List SyncRecordVariable}
    (hread : List.Forall₂ ReadAs vars read) :
    read.map SyncRecordVariable.name = vars.map HeaderVariable.name := by
  induction hread with
  | nil => rfl
  | cons hfirst _ ih =>
      obtain ⟨converter, rfl, -⟩ := hfirst
      rw [List.map_cons, List.map_cons, ih]
      rfl

theorem readOf_of_forall₂ {read : List SyncRecordVariable}
    (hnames : (vars.map HeaderVariable.name).Nodup)
    (hread : List.Forall₂ ReadAs vars read) :
    ReadOf vars read := by
  constructor
  case nodup =>
    rw [map_name_of_forall₂ hread]
    exact hnames
  case record =>
    intro var hvar
    obtain ⟨i, hi⟩ := List.mem_iff_getElem?.mp hvar
    obtain ⟨hlt, hget⟩ := List.getElem?_eq_some_iff.mp hi
    have hlt' : i < read.length := hread.length_eq ▸ hlt
    obtain ⟨converter, hrecord, -⟩ := hread.get hlt hlt'
    refine ⟨i, read[i], List.getElem?_eq_getElem hlt', ?_⟩
    have hsame : read[i] = readOf var converter := by
      rw [← hget]
      exact hrecord
    rw [hsame]
    exact ⟨rfl, rfl⟩

/-- The header up to the rate groups. -/
theorem exists_scanHeader_rates (hflight : flight.Quotable) (hvars : ∀ var ∈ vars, Writable var)
    (hnames : ∀ var ∈ vars, Wordlike var.name ∧ var.name ≠ ['}']) (infos : List SyncInfo) :
    ∃ read fuel,
      List.Forall₂ ReadAs vars read ∧
      infos.length < fuel ∧ scanHeader (headerData flight vars infos) =
        (readRates fuel 0 ⟨read, registerAll 0 [] (vars.map HeaderVariable.name), 0, 0⟩
          (ofText ('\n' :: (infos.flatMap (rateText vars) ++ '}' :: '\n' :: ['\x00']))) >>=
            fun result => endHeader flight.read result.1 result.2) := by
  obtain ⟨total, htotal, hscan⟩ := @exists_scanHeader flight vars hflight infos
  obtain ⟨fuel, rfl⟩ : ∃ fuel, total = fuel + 1 + vars.length :=
    ⟨total - 1 - vars.length, by omega⟩
  obtain ⟨read, hread, hlines⟩ := exists_readVariables hvars hnames (fuel + 1) [] []
    ('}' :: '\n' :: ratesText vars infos)
  refine ⟨read, (ofText ('\n' :: (infos.flatMap (rateText vars) ++
    '}' :: '\n' :: ['\x00']))).text.length + 1, hread, ?_, ?_⟩
  · have hinfos : infos.length ≤ (infos.flatMap (rateText vars)).length :=
      length_le_flatMap fun sinfo _ => by simp [rateText]
    simp only [ofText, List.length_cons, List.length_append]
    omega
  · rw [hscan, hlines, List.nil_append, readVariables_brace _ _ _ (by decide), pure_bind]
    unfold scanRates ratesText
    dsimp only
    rw [expectWord_of_blank (by decide),
      expectWord_ofText _ (by decide) (noBlank_of_all rfl) (by decide), pure_bind,
      expectWord_of_blank (by decide),
      expectWord_ofText _ (by decide) (noBlank_of_all rfl) (by decide), pure_bind]
    rfl

end Scan

end Nidas.Dynld.SyncHeader
