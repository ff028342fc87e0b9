import Mathlib.Data.List.Nodup
import Nidas.Dynld.SyncHeaderScan

/-!
# The rate groups are read back

`init` lays out the samples one behind the other (`Contiguous`), and `readRates` goes through the
rate groups in the same order.  What it knows after some groups are the places of their variables
(`Tracks`): they are those of the layout (`readRates_rateText`).
-/

namespace Nidas.Dynld.SyncHeader

open Lib TextStream

/-! ## Places -/

/-- Where a variable is in a record. -/
structure Place where
  rate : ℚ
  offset : ℕ
  lag : ℕ

/-- The places that are known, by the names of the variables. -/
abbrev Places := List Char → Option Place

/-- A record variable with its place. -/
def placed (places : Places) (record : SyncRecordVariable) : SyncRecordVariable :=
  match places record.name with
  | none => record
  | some place =>
      { record with rate := place.rate, syncRecOffset := place.offset, lagOffset := place.lag }

/-- The reader knows the places of some of the variables, and that the other ones have none. -/
structure Tracks (read : List SyncRecordVariable) (places : Places) (placing : Placing) : Prop where
  newvars : placing.newvars = read.map (placed places)
  inOrder : KeysInOrder placing.vmap
  known : ∀ i record, read[i]? = some record → lookupKey record.name placing.vmap =
    some (if (places record.name).isSome then none else some i)
  unknown : ∀ name, name ∉ read.map SyncRecordVariable.name → lookupKey name placing.vmap = none

section Tracks

variable {read : List SyncRecordVariable} {places : Places} {placing : Placing} {i : ℕ}
  {record : SyncRecordVariable}

theorem Tracks.find (h : Tracks read places placing) (hrecord : read[i]? = some record)
    (hnone : places record.name = none) :
    placing.find record.name = some (some (i, record)) := by
  have hplaced : placed places record = record := by
    unfold placed
    rw [hnone]
  unfold Placing.find
  rw [h.known i record hrecord, hnone, h.newvars, Option.map_some]
  simp [hrecord, hplaced]

theorem name_injective (hnames : (read.map SyncRecordVariable.name).Nodup)
    (hrecord : read[i]? = some record) {j : ℕ} {other : SyncRecordVariable}
    (hother : read[j]? = some other) (hsame : other.name = record.name) : j = i := by
  obtain ⟨hi, hrecord⟩ := List.getElem?_eq_some_iff.mp hrecord
  obtain ⟨hj, hother⟩ := List.getElem?_eq_some_iff.mp hother
  have hi' : i < (read.map SyncRecordVariable.name).length := by simpa using hi
  have hj' : j < (read.map SyncRecordVariable.name).length := by simpa using hj
  have hname : (read.map SyncRecordVariable.name)[j] =
      (read.map SyncRecordVariable.name)[i] := by
    rw [List.getElem_map, List.getElem_map, hother, hrecord, hsame]
  exact (List.Nodup.getElem_inj_iff hnames).mp hname

/-- A variable gets its place. -/
theorem Tracks.place (h : Tracks read places placing)
    (hnames : (read.map SyncRecordVariable.name).Nodup) (hrecord : read[i]? = some record)
    (rate : ℚ) {lag : ℕ} (hlag : lag < 2 ^ 31) (hoffset : placing.offset < 2 ^ 31) :
    Tracks read (Function.update places record.name (some ⟨rate, placing.offset, lag⟩))
      (placing.place rate lag record.name i record) := by
  constructor
  case newvars =>
    unfold Placing.place
    dsimp only
    rw [h.newvars, toInt32_of_range (by omega) (by omega), toInt32_of_range (by omega) (by omega)]
    apply List.ext_getElem?
    intro j
    by_cases hj : j = i
    · subst hj
      have hlt := (List.getElem?_eq_some_iff.mp hrecord).1
      rw [List.getElem?_set_self (by simpa using hlt), List.getElem?_map, hrecord, Option.map_some]
      simp [placed]
    · rw [List.getElem?_set_ne (Ne.symm hj), List.getElem?_map, List.getElem?_map]
      cases hother : read[j]? with
      | none => rfl
      | some other =>
          have hne : other.name ≠ record.name :=
            fun hsame => hj (name_injective hnames hrecord hother hsame)
          rw [Option.map_some, Option.map_some, placed, placed, Function.update_of_ne hne]
  case inOrder => exact h.inOrder.insertKey
  case known =>
    intro j other hother
    unfold Placing.place
    dsimp only
    by_cases hsame : other.name = record.name
    · rw [hsame, lookupKey_insertKey_self, Function.update_self]
      rfl
    · rw [lookupKey_insertKey_of_ne hsame, Function.update_of_ne hsame, h.known j other hother]
  case unknown =>
    intro name hname
    have hne : name ≠ record.name := by
      rintro rfl
      exact hname (List.mem_map_of_mem (List.mem_of_getElem? hrecord))
    unfold Placing.place
    dsimp only
    rw [lookupKey_insertKey_of_ne hne, h.unknown name hname]

end Tracks

/-! ## A group -/

/-- The places of the variables of a sample, from an offset on. -/
def placeGroup (rate : ℚ) (lag nSlots : ℕ) : ℕ → List HeaderVariable → Places → Places
  | _, [], places => places
  | offset, var :: vars, places =>
      placeGroup rate lag nSlots (offset + var.length * nSlots) vars
        (Function.update places var.name (some ⟨rate, offset, lag⟩))

theorem placeGroup_of_notMem {rate : ℚ} {lag nSlots offset : ℕ} {vars : List HeaderVariable}
    {places : Places} {name : List Char} (hname : name ∉ vars.map HeaderVariable.name) :
    placeGroup rate lag nSlots offset vars places name = places name := by
  induction vars generalizing offset places with
  | nil => rfl
  | cons var vars ih =>
      rw [List.map_cons, List.mem_cons, not_or] at hname
      rw [placeGroup, ih hname.2, Function.update_of_ne hname.1]

/-- The place of a variable in its group. -/
theorem placeGroup_getElem? {rate : ℚ} {lag nSlots offset k : ℕ} {vars : List HeaderVariable}
    {places : Places} {var : HeaderVariable} (hnames : (vars.map HeaderVariable.name).Nodup)
    (hvar : vars[k]? = some var) :
    placeGroup rate lag nSlots offset vars places var.name =
      some ⟨rate, offset + ((vars.take k).map fun var => var.length).sum * nSlots, lag⟩ := by
  induction vars generalizing offset places k with
  | nil => simp at hvar
  | cons first vars ih =>
      rw [List.map_cons, List.nodup_cons] at hnames
      cases k with
      | zero =>
          obtain rfl : first = var := by simpa using hvar
          rw [placeGroup, placeGroup_of_notMem hnames.1, Function.update_self]
          simp
      | succ k =>
          rw [placeGroup, ih hnames.2 (by simpa using hvar)]
          simp only [List.take_succ_cons, List.map_cons, List.sum_cons, Option.some.injEq,
            Place.mk.injEq, and_true, true_and]
          ring

/-- The number of values of some variables. -/
def valuesIn (nSlots : ℕ) (vars : List HeaderVariable) : ℕ :=
  (vars.map fun var => var.length).sum * nSlots

/-- The variables that are read, with the names and the lengths of those that were written. -/
structure ReadOf (vars : List HeaderVariable) (read : List SyncRecordVariable) : Prop where
  nodup : (read.map SyncRecordVariable.name).Nodup
  record : ∀ var ∈ vars, ∃ (i : ℕ) (record : SyncRecordVariable), read[i]? = some record ∧
    record.name = var.name ∧ record.length = var.length

theorem valuesIn_cons (nSlots : ℕ) (var : HeaderVariable) (vars : List HeaderVariable) :
    valuesIn nSlots (var :: vars) = var.length * nSlots + valuesIn nSlots vars := by
  simp [valuesIn, Nat.add_mul]

section Group

variable {vars : List HeaderVariable} {read : List SyncRecordVariable} {places : Places}
  {placing : Placing}

/-- The counts behind a variable. -/
theorem place_counts {rate : ℚ} {nSlots : ℕ} (hslots : ⌈rate⌉ = nSlots) (lag : ℕ)
    (name : List Char) (i : ℕ) {record : SyncRecordVariable}
    (hfit : placing.offset + record.length * nSlots < 2 ^ 31)
    (hsize : placing.groupSize + record.length * nSlots < 2 ^ 31) :
    (placing.place rate lag name i record).offset = placing.offset + record.length * nSlots ∧
      (placing.place rate lag name i record).groupSize =
        placing.groupSize + record.length * nSlots := by
  obtain ⟨count, hcount⟩ : ∃ count, count = record.length * nSlots := ⟨_, rfl⟩
  have hproduct : (record.length : ℤ) * nSlots = count := by
    rw [hcount]
    push_cast
    rfl
  rw [← hcount] at hfit hsize ⊢
  have hndata : toInt32 ((record.length * ⌈rate⌉) % 2 ^ 32) = count := by
    rw [hslots, hproduct]
    exact (congrArg toInt32 (by omega)).trans (toInt32_of_range (by omega) (by omega))
  unfold Placing.place
  dsimp only
  rw [hndata]
  omega

/-- **A group is read.** -/
theorem exists_readGroup {rate : ℚ} {nSlots lag fuel : ℕ} (hread : ReadOf vars read)
    (hslots : ⌈rate⌉ = nSlots) {group : List HeaderVariable} (hgroup : ∀ var ∈ group, var ∈ vars)
    (hnodup : (group.map HeaderVariable.name).Nodup)
    (hword : ∀ var ∈ group, Wordlike var.name ∧ var.name ≠ [';'])
    (htracks : Tracks read places placing) (hnone : ∀ var ∈ group, places var.name = none)
    (hfit : placing.offset + valuesIn nSlots group < 2 ^ 31) (hlag : lag < 2 ^ 31)
    (hsize : placing.groupSize + valuesIn nSlots group < 2 ^ 31) (hfuel : group.length < fuel)
    (rest : List Char) :
    ∃ after, readGroup rate lag fuel placing
        (ofText (' ' :: (group.flatMap (fun var => replaceSpaces var.name ++ [' ']) ++
          ';' :: '\n' :: rest))) = pure (after, ofText ('\n' :: rest)) ∧
      Tracks read (placeGroup rate lag nSlots placing.offset group places) after ∧
      after.offset = placing.offset + valuesIn nSlots group ∧
      after.groupSize = placing.groupSize + valuesIn nSlots group := by
  induction group generalizing placing places fuel with
  | nil =>
      obtain ⟨fuel, rfl⟩ := Nat.exists_eq_succ_of_ne_zero hfuel.ne'
      have hword : (ofText (';' :: '\n' :: rest)).readWord = ([';'], ofText ('\n' :: rest)) :=
        readWord_singleton (by decide) (by decide)
      refine ⟨placing, ?_, htracks, by simp [valuesIn], by simp [valuesIn]⟩
      rw [readGroup, readWord_of_blank (by decide), List.flatMap_nil, List.nil_append, hword]
      rfl
  | cons var group ih =>
      obtain ⟨fuel, rfl⟩ := Nat.exists_eq_succ_of_ne_zero (Nat.ne_of_gt (Nat.zero_lt_of_lt hfuel))
      obtain ⟨hmem, hgroup⟩ := List.forall_mem_cons.mp hgroup
      obtain ⟨⟨hname, hend⟩, hword⟩ := List.forall_mem_cons.mp hword
      obtain ⟨hunplaced, hnone⟩ := List.forall_mem_cons.mp hnone
      rw [List.map_cons, List.nodup_cons] at hnodup
      rw [valuesIn_cons] at hfit hsize ⊢
      obtain ⟨i, record, hrecord, hsame, hlength⟩ := hread.record var hmem
      rw [← hlength] at hfit hsize ⊢
      obtain ⟨hoffset, hgroupSize⟩ := place_counts hslots lag record.name i
        (by omega : placing.offset + record.length * nSlots < 2 ^ 31) (by omega)
      have hplace := htracks.place hread.nodup hrecord rate hlag (by omega)
      have hothers : ∀ other ∈ group,
          Function.update places record.name (some ⟨rate, placing.offset, lag⟩) other.name =
            none := by
        intro other hother
        have hne : other.name ≠ record.name := by
          rw [hsame]
          rintro heq
          exact hnodup.1 (heq ▸ List.mem_map_of_mem hother)
        rw [Function.update_of_ne hne, hnone other hother]
      obtain ⟨after, hmore, hafter, hlast, hcount⟩ := ih hgroup hnodup.2 hword hplace hothers
        (by omega) (by omega) (Nat.lt_of_succ_lt_succ hfuel)
      have htext : ((var :: group).flatMap fun var => replaceSpaces var.name ++ [' ']) ++
          ';' :: '\n' :: rest = var.name ++ ' ' ::
            (group.flatMap (fun var => replaceSpaces var.name ++ [' ']) ++
              ';' :: '\n' :: rest) := by
        rw [List.flatMap_cons, replaceSpaces_eq hname.noBlank]
        simp
      refine ⟨after, ?_, ?_, by omega, by omega⟩
      · rw [readGroup, readWord_of_blank (by decide), htext,
          readWord_ofText hname.ne_nil hname.noBlank (by decide)]
        dsimp only
        rw [requireMore_ofText, pure_bind, if_neg hend, ← hsame,
          htracks.find hrecord (by rw [hsame]; exact hunplaced)]
        exact hmore
      · rw [placeGroup, ← hsame, ← hlength, ← hoffset]
        exact hafter

end Group

/-! ## All groups -/

/-- The samples are laid out one behind the other, from an index to another one. -/
def Contiguous : ℕ → List SyncInfo → ℕ → Prop
  | index, [], last => index = last
  | index, sinfo :: infos, last =>
      sinfo.sampleSRIndex = index ∧
        Contiguous (index + 1 + sinfo.varLengths.sum * sinfo.nSlots.toNat) infos last

theorem Contiguous.le {index last : ℕ} {infos : List SyncInfo}
    (h : Contiguous index infos last) : index ≤ last := by
  induction infos generalizing index with
  | nil => exact Nat.le_of_eq h
  | cons sinfo infos ih =>
      have hrest := ih h.2
      omega

/-- A sample whose rate is read back, with the lengths of its variables. -/
structure Grouped (vars : List HeaderVariable) (sinfo : SyncInfo) : Prop where
  rate_pos : 0 < sinfo.rate
  rate_lt : sinfo.rate < 2 ^ 128
  readBack : readBack 5 sinfo.rate = sinfo.rate
  nSlots : sinfo.nSlots = ⌈sinfo.rate⌉
  varLengths : sinfo.varLengths = (variablesIn vars sinfo).map fun var => var.length

/-- The places of the variables of some samples. -/
def placeSamples (vars : List HeaderVariable) : List SyncInfo → Places → Places
  | [], places => places
  | sinfo :: infos, places =>
      placeSamples vars infos (placeGroup sinfo.rate sinfo.sampleSRIndex sinfo.nSlots.toNat
        (sinfo.sampleSRIndex + 1) (variablesIn vars sinfo) places)

section Samples

variable {vars : List HeaderVariable} {sinfo : SyncInfo} {infos : List SyncInfo}

theorem mem_variablesIn {var : HeaderVariable} (hmem : var ∈ variablesIn vars sinfo) :
    var ∈ vars ∧ var.id = sinfo.id := by
  obtain ⟨hvar, hid⟩ := List.mem_filter.mp hmem
  exact ⟨hvar, (of_decide_eq_true hid).1⟩

theorem nodup_variablesIn (hnames : (vars.map HeaderVariable.name).Nodup) :
    ((variablesIn vars sinfo).map HeaderVariable.name).Nodup :=
  hnames.sublist (List.filter_sublist.map _)

/-- A name belongs to one sample. -/
theorem notMem_other (hnames : (vars.map HeaderVariable.name).Nodup) {other : SyncInfo}
    (hid : sinfo.id ≠ other.id) {var : HeaderVariable} (hmem : var ∈ variablesIn vars sinfo) :
    var.name ∉ (variablesIn vars other).map HeaderVariable.name := by
  intro hname
  obtain ⟨second, hsecond, hsame⟩ := List.mem_map.mp hname
  obtain ⟨hvar, hvarId⟩ := mem_variablesIn hmem
  obtain ⟨hother, hotherId⟩ := mem_variablesIn hsecond
  have heq := List.inj_on_of_nodup_map hnames hother hvar hsame
  rw [heq, hvarId] at hotherId
  exact hid hotherId

theorem placeSamples_of_notMem {places : Places} {name : List Char}
    (hname : ∀ sinfo ∈ infos, name ∉ (variablesIn vars sinfo).map HeaderVariable.name) :
    placeSamples vars infos places name = places name := by
  induction infos generalizing places with
  | nil => rfl
  | cons sinfo infos ih =>
      obtain ⟨hfirst, hrest⟩ := List.forall_mem_cons.mp hname
      rw [placeSamples, ih hrest, placeGroup_of_notMem hfirst]

/-- The place of a variable of a sample. -/
theorem placeSamples_eq (hnames : (vars.map HeaderVariable.name).Nodup)
    (hids : infos.Pairwise fun first second => first.id ≠ second.id) {places : Places}
    (hsinfo : sinfo ∈ infos) {k : ℕ} {var : HeaderVariable}
    (hvar : (variablesIn vars sinfo)[k]? = some var) :
    placeSamples vars infos places var.name =
      some ⟨sinfo.rate, sinfo.sampleSRIndex + 1 +
        (((variablesIn vars sinfo).take k).map fun var => var.length).sum * sinfo.nSlots.toNat,
        sinfo.sampleSRIndex⟩ := by
  induction infos generalizing places with
  | nil => cases hsinfo
  | cons first infos ih =>
      obtain ⟨hfirst, hrest⟩ := List.pairwise_cons.mp hids
      rcases List.mem_cons.mp hsinfo with rfl | hmem
      · rw [placeSamples, placeSamples_of_notMem fun other hother =>
          notMem_other hnames (hfirst other hother) (List.mem_of_getElem? hvar)]
        exact placeGroup_getElem? (nodup_variablesIn hnames) hvar
      · exact ih hrest hmem

/-- **All groups are read**, and the places are those of the layout. -/
theorem exists_readRates {read : List SyncRecordVariable} {places : Places} {placing : Placing}
    {last fuel : ℕ} (hread : ReadOf vars read) (hnames : (vars.map HeaderVariable.name).Nodup)
    (hword : ∀ var ∈ vars, Wordlike var.name ∧ var.name ≠ [';'])
    (hgroups : ∀ sinfo ∈ infos, Grouped vars sinfo)
    (hids : infos.Pairwise fun first second => first.id ≠ second.id)
    (htracks : Tracks read places placing)
    (hnone : ∀ sinfo ∈ infos, ∀ var ∈ variablesIn vars sinfo, places var.name = none)
    (hlayout : Contiguous placing.offset infos last) (hlast : last < 2 ^ 31)
    (hfuel : infos.length < fuel) (rest : List Char) :
    ∃ after, readRates fuel placing.offset placing
        (ofText ('\n' :: (infos.flatMap (rateText vars) ++ '}' :: rest))) =
          pure (after, ⟨'}' :: rest, false, true⟩) ∧
      Tracks read (placeSamples vars infos places) after ∧ after.offset = last := by
  induction infos generalizing placing places fuel with
  | nil =>
      obtain ⟨fuel, rfl⟩ := Nat.exists_eq_succ_of_ne_zero hfuel.ne'
      refine ⟨placing, ?_, htracks, hlayout⟩
      have hread : (ofText ('\n' :: ([] ++ '}' :: rest))).readFloat =
          (0, ⟨'}' :: rest, false, true⟩) := by
        rw [readFloat_of_blank (by decide), List.nil_append]
        exact readFloat_of_endsNumber (by decide) ⟨by decide, by decide⟩
      rw [readRates, List.flatMap_nil, hread]
      rfl
  | cons sinfo infos ih =>
      obtain ⟨fuel, rfl⟩ := Nat.exists_eq_succ_of_ne_zero (Nat.ne_of_gt (Nat.zero_lt_of_lt hfuel))
      obtain ⟨hgroup, hgroups⟩ := List.forall_mem_cons.mp hgroups
      obtain ⟨hfirst, hids⟩ := List.pairwise_cons.mp hids
      obtain ⟨hunplaced, hnone⟩ := List.forall_mem_cons.mp hnone
      obtain ⟨hindex, hlayout⟩ := hlayout
      have hle := hlayout.le
      have hslots : ⌈sinfo.rate⌉ = (sinfo.nSlots.toNat : ℤ) := by
        have hpos := Int.ceil_nonneg hgroup.rate_pos.le
        rw [hgroup.nSlots]
        omega
      have hvalues : sinfo.varLengths.sum * sinfo.nSlots.toNat =
          valuesIn sinfo.nSlots.toNat (variablesIn vars sinfo) := by
        rw [hgroup.varLengths]
        rfl
      rw [hvalues] at hle hlayout
      obtain ⟨begun, hbegun⟩ : ∃ begun, begun =
        { placing with offset := (placing.offset + 1) % 2 ^ 64, groupSize := 1 } := ⟨_, rfl⟩
      have hoffset : begun.offset = placing.offset + 1 := by
        rw [hbegun]
        exact Nat.mod_eq_of_lt (by omega)
      have hsize : begun.groupSize = 1 := by rw [hbegun]
      have hbegunTracks : Tracks read places begun := by
        rw [hbegun]
        exact ⟨htracks.newvars, htracks.inOrder, htracks.known, htracks.unknown⟩
      obtain ⟨names, hnamesText⟩ : ∃ names, names =
        (variablesIn vars sinfo).flatMap fun var => replaceSpaces var.name ++ [' '] := ⟨_, rfl⟩
      have htext : (sinfo :: infos).flatMap (rateText vars) ++ '}' :: rest =
          printFixed 5 sinfo.rate ++ ' ' :: (names ++ ';' :: '\n' ::
            (infos.flatMap (rateText vars) ++ '}' :: rest)) := by
        unfold rateText
        rw [List.flatMap_cons, hnamesText]
        simp only [List.append_assoc, List.cons_append]
        rfl
      have hlength : (variablesIn vars sinfo).length < (ofText (' ' :: (names ++ ';' :: '\n' ::
          (infos.flatMap (rateText vars) ++ '}' :: rest)))).text.length + 1 := by
        have hle : (variablesIn vars sinfo).length ≤ names.length := by
          rw [hnamesText]
          exact length_le_flatMap fun var _ => by simp
        simp only [ofText, List.length_cons, List.length_append]
        omega
      obtain ⟨middle, hmiddle, hmiddleTracks, hmiddleOffset, hmiddleSize⟩ :=
        exists_readGroup hread hslots
          (fun var hmem => (mem_variablesIn hmem).1) (nodup_variablesIn hnames)
          (fun var hmem => hword var (mem_variablesIn hmem).1) hbegunTracks hunplaced
          (by omega) (show placing.offset < 2 ^ 31 by omega) (by omega) hlength
          (infos.flatMap (rateText vars) ++ '}' :: rest)
      rw [hoffset] at hmiddleOffset hmiddleTracks
      have hlag : (placing.offset + middle.groupSize) % 2 ^ 64 = middle.offset := by
        rw [hmiddleSize, hmiddleOffset, hsize]
        exact (Nat.mod_eq_of_lt (by omega)).trans (by omega)
      have hothers : ∀ other ∈ infos, ∀ var ∈ variablesIn vars other,
          placeGroup sinfo.rate placing.offset sinfo.nSlots.toNat (placing.offset + 1)
            (variablesIn vars sinfo) places var.name = none := by
        intro other hother var hvar
        rw [placeGroup_of_notMem (notMem_other hnames (hfirst other hother).symm hvar)]
        exact hnone other hother var hvar
      rw [← hmiddleOffset] at hlayout
      obtain ⟨after, hmore, hafter, hlastOffset⟩ := ih hgroups hids hmiddleTracks hothers hlayout
        (Nat.lt_of_succ_lt_succ hfuel)
      refine ⟨after, ?_, ?_, hlastOffset⟩
      · rw [readRates, readFloat_of_blank (by decide), htext, readFloat_printFixed (by decide)
          hgroup.rate_pos.le (by rw [hgroup.readBack]; exact hgroup.rate_lt)
          (endsNumber_of_isSpace (by decide)), hgroup.readBack]
        dsimp only
        refine (if_neg Bool.false_ne_true).trans ?_
        rw [← hnamesText] at hmiddle
        rw [← hbegun, requireMore_ofText, pure_bind, hmiddle, pure_bind]
        dsimp only
        rw [hlag]
        exact hmore
      · rw [placeSamples, hindex]
        exact hafter

end Samples

end Nidas.Dynld.SyncHeader
