import Nidas.Dynld.SyncReceive

/-!
# The state after `init`

`init` goes through the variables and makes a `SyncInfo` for every sample id, with the rate of the first
variable of that id and with the lengths of all of them.  A variable whose rate is not
positive is not sampled.  Then the samples are laid out in the order of their ids (`Initial`).
-/

namespace Nidas.Dynld

open Lib

variable {α : Type*}

/-! ## Variables of a sample -/

/-- The rate as a `float`. -/
def TaggedVariable.floatRate (var : TaggedVariable) : ℚ := roundFloat var.rate

/-- The sampled variables of an id. -/
def variablesOf (id : ℕ) (vars : List TaggedVariable) : List TaggedVariable :=
  vars.filter fun var => var.id = id ∧ 0 < var.floatRate

theorem variablesOf_append (id : ℕ) (vars : List TaggedVariable) (var : TaggedVariable) :
    variablesOf id (vars ++ [var]) =
      variablesOf id vars ++ if var.id = id ∧ 0 < var.floatRate then [var] else [] := by
  unfold variablesOf
  rw [List.filter_append]
  congr 1
  by_cases hvar : var.id = id ∧ 0 < var.floatRate
  · rw [if_pos hvar, List.filter_cons_of_pos (by simpa using hvar), List.filter_nil]
  · rw [if_neg hvar, List.filter_cons_of_neg (by simpa using hvar), List.filter_nil]

/-- The variables have been added to a `SyncInfo`. -/
def SyncInfo.addAll (sinfo : SyncInfo) (lengths : List ℕ) : SyncInfo :=
  lengths.foldl SyncInfo.addVariable sinfo

theorem SyncInfo.addAll_append (sinfo : SyncInfo) (lengths : List ℕ) (len : ℕ) :
    sinfo.addAll (lengths ++ [len]) = (sinfo.addAll lengths).addVariable len := by
  simp [addAll]

/-- What all variables together add. -/
theorem SyncInfo.addAll_eq (sinfo : SyncInfo) (lengths : List ℕ) :
    sinfo.addAll lengths = { sinfo with
      varLengths := sinfo.varLengths ++ lengths
      varSRIndex := sinfo.varSRIndex ++ offsets sinfo.nSlots.toNat sinfo.sampleLength lengths
      sampleLength := sinfo.sampleLength + lengths.sum * sinfo.nSlots.toNat } := by
  induction lengths generalizing sinfo with
  | nil => simp [addAll, offsets]
  | cons len rest ih =>
      have hstep : sinfo.addAll (len :: rest) = (sinfo.addVariable len).addAll rest := rfl
      rw [hstep, ih]
      simp only [addVariable, offsets, List.append_assoc, List.singleton_append, List.sum_cons,
        mk.injEq, true_and, and_true]
      ring

@[simp] theorem SyncInfo.addAll_id (sinfo : SyncInfo) (lengths : List ℕ) :
    (sinfo.addAll lengths).id = sinfo.id := by
  rw [addAll_eq]

theorem SyncInfo.new_id {id : ℕ} {rate : ℚ} {sinfo : SyncInfo}
    (hnew : SyncInfo.new id rate = .ok sinfo) : sinfo.id = id := by
  unfold SyncInfo.new at hnew
  dsimp only at hnew
  split at hnew
  · cases hnew
  · split at hnew
    · cases hnew
    · cases hnew
      rfl

theorem SyncInfo.new_addVariable_id {id : ℕ} {rate : ℚ} {sinfo : SyncInfo} {vlen : ℕ}
    (hnew : SyncInfo.new id rate = .ok sinfo) : (sinfo.addVariable vlen).id = id := by
  rw [← new_id hnew]
  rfl

/-! ## Inserting a variable -/

/-- The `SyncInfo` of a variable: made from the rate of the first variable of the id. -/
def BuiltInfo (vars : List TaggedVariable) (sinfo : SyncInfo) : Prop :=
  ∃ first rest new, variablesOf sinfo.id vars = first :: rest ∧
    SyncInfo.new sinfo.id first.floatRate = .ok new ∧
    sinfo = new.addAll ((first :: rest).map TaggedVariable.length)

/-- The `SyncInfo`s after an insertion: the one of the id has the variable, or is a new one. -/
theorem insertVariable_cases {var : TaggedVariable} {rate : ℚ} {infos after : List SyncInfo}
    (hinsert : insertVariable var rate infos = .ok after)
    (hsorted : infos.Pairwise fun first second => first.id < second.id) :
    (∃ sinfo ∈ infos, sinfo.id = var.id ∧
        ∀ other, other ∈ after ↔
          other ∈ infos ∧ other.id ≠ var.id ∨ other = sinfo.addVariable var.length) ∨
      (∀ sinfo ∈ infos, sinfo.id ≠ var.id) ∧ ∃ new, SyncInfo.new var.id rate = .ok new ∧
        ∀ other, other ∈ after ↔ other ∈ infos ∨ other = new.addVariable var.length := by
  induction infos generalizing after with
  | nil =>
      right
      unfold insertVariable at hinsert
      cases hnew : SyncInfo.new var.id rate with
      | error fault => simp [hnew, Except.map] at hinsert
      | ok new =>
          simp only [hnew, Except.map, Except.ok.injEq] at hinsert
          subst after
          exact ⟨by simp, new, rfl, by simp⟩
  | cons sinfo rest ih =>
      obtain ⟨hfirst, hrest⟩ := List.pairwise_cons.mp hsorted
      unfold insertVariable at hinsert
      split at hinsert
      · next hid =>
          -- the variable belongs to the first of them
          left
          cases hinsert
          refine ⟨sinfo, by simp, hid.symm, fun other => ?_⟩
          have hne : other ∈ rest → other.id ≠ var.id := fun hmem => by
            have := hfirst other hmem
            omega
          simp only [List.mem_cons]
          constructor
          · rintro (rfl | hmem)
            · exact .inr rfl
            · exact .inl ⟨.inr hmem, hne hmem⟩
          · rintro (⟨rfl | hmem, hid'⟩ | rfl)
            · exact absurd hid.symm hid'
            · exact .inr hmem
            · exact .inl rfl
      · next hne =>
          split at hinsert
          · next hlt =>
              -- it goes in front of all of them
              right
              cases hnew : SyncInfo.new var.id rate with
              | error fault => simp [hnew, Except.map] at hinsert
              | ok new =>
                  simp only [hnew, Except.map, Except.ok.injEq] at hinsert
                  subst after
                  refine ⟨?_, new, rfl, fun other => ?_⟩
                  · intro other hmem
                    obtain rfl | hmem := List.mem_cons.mp hmem
                    · omega
                    · have := hfirst other hmem
                      omega
                  · simp only [List.mem_cons]
                    tauto
          · next hge =>
              cases hrec : insertVariable var rate rest with
              | error fault => simp [hrec, Except.map] at hinsert
              | ok after' =>
                  simp only [hrec, Except.map, Except.ok.injEq] at hinsert
                  subst after
                  obtain ⟨old, hold, hid, hmem⟩ | ⟨hnone, new, hnew, hmem⟩ := ih hrec hrest
                  · left
                    refine ⟨old, by simp [hold], hid, fun other => ?_⟩
                    simp only [List.mem_cons, hmem]
                    constructor
                    · rintro (rfl | ⟨hother, hid'⟩ | hother)
                      · exact .inl ⟨.inl rfl, fun hid' => hne hid'.symm⟩
                      · exact .inl ⟨.inr hother, hid'⟩
                      · exact .inr hother
                    · rintro (⟨rfl | hother, hid'⟩ | hother)
                      · exact .inl rfl
                      · exact .inr (.inl ⟨hother, hid'⟩)
                      · exact .inr (.inr hother)
                  · right
                    refine ⟨?_, new, hnew, fun other => ?_⟩
                    · intro other hother
                      obtain rfl | hother := List.mem_cons.mp hother
                      · exact fun hid => hne hid.symm
                      · exact hnone other hother
                    · simp only [List.mem_cons, hmem]
                      tauto

theorem insertVariable_sorted {var : TaggedVariable} {rate : ℚ} {infos after : List SyncInfo}
    (hinsert : insertVariable var rate infos = .ok after)
    (hsorted : infos.Pairwise fun first second => first.id < second.id) :
    after.Pairwise fun first second => first.id < second.id := by
  induction infos generalizing after with
  | nil =>
      unfold insertVariable at hinsert
      cases hnew : SyncInfo.new var.id rate with
      | error fault => simp [hnew, Except.map] at hinsert
      | ok new =>
          simp only [hnew, Except.map, Except.ok.injEq] at hinsert
          subst after
          exact List.pairwise_singleton _ _
  | cons sinfo rest ih =>
      obtain ⟨hfirst, hrest⟩ := List.pairwise_cons.mp hsorted
      unfold insertVariable at hinsert
      split at hinsert
      · cases hinsert
        exact List.pairwise_cons.mpr ⟨hfirst, hrest⟩
      · next hne =>
          split at hinsert
          · next hlt =>
              cases hnew : SyncInfo.new var.id rate with
              | error fault => simp [hnew, Except.map] at hinsert
              | ok new =>
                  simp only [hnew, Except.map, Except.ok.injEq] at hinsert
                  subst after
                  have hid : (new.addVariable var.length).id = var.id :=
                    SyncInfo.new_addVariable_id hnew
                  refine List.pairwise_cons.mpr ⟨fun other hmem => ?_, hsorted⟩
                  obtain rfl | hmem := List.mem_cons.mp hmem
                  · omega
                  · have := hfirst other hmem
                    omega
          · next hge =>
              cases hrec : insertVariable var rate rest with
              | error fault => simp [hrec, Except.map] at hinsert
              | ok after' =>
                  simp only [hrec, Except.map, Except.ok.injEq] at hinsert
                  subst after
                  refine List.pairwise_cons.mpr ⟨fun other hmem => ?_, ih hrec hrest⟩
                  obtain ⟨old, hold, hid, hmem'⟩ | ⟨-, new, hnew, hmem'⟩ :=
                    insertVariable_cases hrec hrest
                  · obtain ⟨hother, -⟩ | rfl := (hmem' other).mp hmem
                    · exact hfirst other hother
                    · exact hfirst old hold
                  · obtain hother | rfl := (hmem' other).mp hmem
                    · exact hfirst other hother
                    · have hid : (new.addVariable var.length).id = var.id :=
                        SyncInfo.new_addVariable_id hnew
                      omega

/-! ## All variables -/

/-- What `addVariables` has made of the variables. -/
structure Built (vars : List TaggedVariable) (infos : List SyncInfo) (half : ℤ) : Prop where
  sorted : infos.Pairwise fun first second => first.id < second.id
  info : ∀ sinfo ∈ infos, BuiltInfo vars sinfo
  covers : ∀ var ∈ vars, 0 < var.floatRate → ∃ sinfo ∈ infos, sinfo.id = var.id
  le_half : ∀ var ∈ vars, 0 < var.floatRate → halfUsecsPerSample var.floatRate ≤ half
  half_le : ∀ bound, -intLimit ≤ bound →
    (∀ var ∈ vars, 0 < var.floatRate → halfUsecsPerSample var.floatRate ≤ bound) → half ≤ bound

theorem built_nil : Built [] [] (-intLimit) where
  sorted := List.Pairwise.nil
  info := by simp
  covers := by simp
  le_half := by simp
  half_le bound hbound _ := hbound

theorem Built.skip {vars : List TaggedVariable} {infos : List SyncInfo} {half : ℤ}
    (hbuilt : Built vars infos half) {var : TaggedVariable} (hrate : ¬0 < var.floatRate) :
    Built (vars ++ [var]) infos half where
  sorted := hbuilt.sorted
  info sinfo hmem := by
    obtain ⟨first, rest, new, hvars, hnew, hsinfo⟩ := hbuilt.info sinfo hmem
    refine ⟨first, rest, new, ?_, hnew, hsinfo⟩
    rw [variablesOf_append, if_neg (fun hvar => hrate hvar.2), List.append_nil, hvars]
  covers other hmem hpos := by
    obtain hmem | hmem := List.mem_append.mp hmem
    · exact hbuilt.covers other hmem hpos
    · rw [List.mem_singleton.mp hmem] at hpos
      exact absurd hpos hrate
  le_half other hmem hpos := by
    obtain hmem | hmem := List.mem_append.mp hmem
    · exact hbuilt.le_half other hmem hpos
    · rw [List.mem_singleton.mp hmem] at hpos
      exact absurd hpos hrate
  half_le bound hbound hall :=
    hbuilt.half_le bound hbound fun other hmem => hall other (List.mem_append_left _ hmem)

/-- A variable of an id that has a `SyncInfo`, or of a new one. -/
theorem Built.builtInfo_insert {vars : List TaggedVariable} {infos after : List SyncInfo} {half : ℤ}
    (hbuilt : Built vars infos half) {var : TaggedVariable} (hrate : 0 < var.floatRate)
    (hinsert : insertVariable var var.floatRate infos = .ok after) {sinfo : SyncInfo}
    (hmem : sinfo ∈ after) : BuiltInfo (vars ++ [var]) sinfo := by
  have hother : sinfo ∈ infos → sinfo.id ≠ var.id → BuiltInfo (vars ++ [var]) sinfo := by
    intro hold hne
    obtain ⟨first, rest, new, hvars, hnew, hsinfo⟩ := hbuilt.info sinfo hold
    refine ⟨first, rest, new, ?_, hnew, hsinfo⟩
    rw [variablesOf_append, if_neg (fun hvar => hne hvar.1.symm), List.append_nil, hvars]
  obtain ⟨old, hold, hid, hafter⟩ | ⟨hnone, new, hnew, hafter⟩ :=
    insertVariable_cases hinsert hbuilt.sorted
  · obtain ⟨hmem, hne⟩ | rfl := (hafter sinfo).mp hmem
    · exact hother hmem hne
    · obtain ⟨first, rest, new, hvars, hnew, hsinfo⟩ := hbuilt.info old hold
      have hid' : (old.addVariable var.length).id = old.id := rfl
      refine ⟨first, rest ++ [var], new, ?_, ?_, ?_⟩
      · rw [hid', variablesOf_append, if_pos ⟨hid.symm, hrate⟩, hvars, List.cons_append]
      · rw [hid']
        exact hnew
      · rw [← List.cons_append, List.map_append, List.map_singleton, SyncInfo.addAll_append,
          ← hsinfo]
  · obtain hmem | rfl := (hafter sinfo).mp hmem
    · exact hother hmem (hnone sinfo hmem)
    · have hid : (new.addVariable var.length).id = var.id :=
        SyncInfo.new_addVariable_id hnew
      -- no variable of the id has been sampled so far
      have hnil : variablesOf var.id vars = [] := by
        refine List.filter_eq_nil_iff.mpr fun other hmem hvar => ?_
        obtain ⟨hother, hpos⟩ : other.id = var.id ∧ 0 < other.floatRate := by simpa using hvar
        obtain ⟨found, hfound, hid'⟩ := hbuilt.covers other hmem hpos
        exact hnone found hfound (hid'.trans hother)
      refine ⟨var, [], new, ?_, ?_, rfl⟩
      · rw [hid, variablesOf_append, hnil, if_pos ⟨rfl, hrate⟩, List.nil_append]
      · rw [hid]
        exact hnew

theorem Built.insert {vars : List TaggedVariable} {infos after : List SyncInfo} {half : ℤ}
    (hbuilt : Built vars infos half) {var : TaggedVariable} (hrate : 0 < var.floatRate)
    (hinsert : insertVariable var var.floatRate infos = .ok after) :
    Built (vars ++ [var]) after (max half (halfUsecsPerSample var.floatRate)) where
  sorted := insertVariable_sorted hinsert hbuilt.sorted
  info _ hmem := hbuilt.builtInfo_insert hrate hinsert hmem
  covers other hmem hpos := by
    obtain ⟨old, hold, hid, hafter⟩ | ⟨hnone, new, hnew, hafter⟩ :=
      insertVariable_cases hinsert hbuilt.sorted
    · have hvar : old.addVariable var.length ∈ after := (hafter _).mpr (.inr rfl)
      obtain hmem | hmem := List.mem_append.mp hmem
      · obtain ⟨found, hfound, hid'⟩ := hbuilt.covers other hmem hpos
        by_cases hsame : found.id = var.id
        · exact ⟨_, hvar, by rw [← hid', hsame, ← hid]; rfl⟩
        · exact ⟨found, (hafter found).mpr (.inl ⟨hfound, hsame⟩), hid'⟩
      · rw [List.mem_singleton.mp hmem]
        exact ⟨_, hvar, hid⟩
    · obtain hmem | hmem := List.mem_append.mp hmem
      · obtain ⟨found, hfound, hid'⟩ := hbuilt.covers other hmem hpos
        exact ⟨found, (hafter found).mpr (.inl hfound), hid'⟩
      · rw [List.mem_singleton.mp hmem]
        exact ⟨_, (hafter _).mpr (.inr rfl), SyncInfo.new_addVariable_id hnew⟩
  le_half other hmem hpos := by
    obtain hmem | hmem := List.mem_append.mp hmem
    · exact le_max_of_le_left (hbuilt.le_half other hmem hpos)
    · rw [List.mem_singleton.mp hmem]
      exact le_max_right _ _
  half_le bound hbound hall := by
    refine max_le ?_ (hall var (by simp) hrate)
    exact hbuilt.half_le bound hbound fun other hmem => hall other (List.mem_append_left _ hmem)

theorem built_addVariables {rest vars : List TaggedVariable} {infos after : List SyncInfo}
    {half half' : ℤ} (hbuilt : Built vars infos half)
    (hadd : addVariables rest infos half = .ok (after, half')) :
    Built (vars ++ rest) after half' := by
  induction rest generalizing vars infos half with
  | nil =>
      cases hadd
      rwa [List.append_nil]
  | cons var rest ih =>
      rw [List.append_cons]
      unfold addVariables at hadd
      dsimp only at hadd
      split at hadd
      · next hrate => exact ih (hbuilt.skip (not_lt.mpr hrate)) hadd
      · next hrate =>
          cases hinsert : insertVariable var (roundFloat var.rate) infos with
          | error fault => simp [hinsert] at hadd
          | ok infos' =>
              simp only [hinsert] at hadd
              split at hadd
              · cases hadd
              · exact ih (hbuilt.insert (not_le.mp hrate) hinsert) hadd

/-! ## Layout -/

/-- A sample has got its place in the record. -/
def SyncInfo.shifted (sinfo : SyncInfo) (index : ℕ) : SyncInfo :=
  { sinfo with
    sampleSRIndex := index
    varSRIndex := sinfo.varSRIndex.map (· + index) }

theorem layOut_cons (index : ℕ) (sinfo : SyncInfo) (rest : List SyncInfo) :
    layOut index (sinfo :: rest) =
      (sinfo.shifted index :: (layOut (index + sinfo.sampleLength) rest).1,
        (layOut (index + sinfo.sampleLength) rest).2) := rfl

theorem le_layOut (index : ℕ) (infos : List SyncInfo) : index ≤ (layOut index infos).2 := by
  induction infos generalizing index with
  | nil => exact le_refl index
  | cons sinfo rest ih =>
      rw [layOut_cons]
      exact le_trans (Nat.le_add_right _ _) (ih _)

theorem map_id_layOut (index : ℕ) (infos : List SyncInfo) :
    (layOut index infos).1.map SyncInfo.id = infos.map SyncInfo.id := by
  induction infos generalizing index with
  | nil => rfl
  | cons sinfo rest ih =>
      rw [layOut_cons, List.map_cons, List.map_cons, ih]
      rfl

/-- Every sample of the layout is one of those that have been laid out, with room for its values. -/
theorem of_mem_layOut {index : ℕ} {infos : List SyncInfo} {sinfo : SyncInfo}
    (hmem : sinfo ∈ (layOut index infos).1) :
    ∃ built ∈ infos, ∃ place, sinfo = built.shifted place ∧
      place + built.sampleLength ≤ (layOut index infos).2 := by
  induction infos generalizing index with
  | nil => simp [layOut] at hmem
  | cons first rest ih =>
      rw [layOut_cons] at hmem ⊢
      obtain rfl | hmem := List.mem_cons.mp hmem
      · exact ⟨first, by simp, index, rfl, le_layOut _ rest⟩
      · obtain ⟨built, hbuilt, place, hsinfo, hplace⟩ := ih hmem
        exact ⟨built, by simp [hbuilt], place, hsinfo, hplace⟩

/-! ## After `init` -/

/-- A `SyncInfo` as `init` leaves it. -/
structure Initial (vars : List TaggedVariable) (recSize : ℕ) (sinfo : SyncInfo) : Prop where
  exists_first : ∃ first rest, variablesOf sinfo.id vars = first :: rest ∧
    sinfo.rate = first.floatRate
  nSlots : sinfo.nSlots = slotsPerSecond sinfo.rate
  dtUsec : sinfo.dtUsec = usecsPerSlot sinfo.rate
  skipMod : sinfo.skipMod = skipModulus sinfo.rate
  dtUsec_lt : sinfo.dtUsec < intLimit
  dtUsec_ne : sinfo.dtUsec ≠ 0
  varLengths : sinfo.varLengths = (variablesOf sinfo.id vars).map TaggedVariable.length
  laidOut : sinfo.LaidOut recSize
  islot : sinfo.islot = -1
  irec : sinfo.irec = false

theorem BuiltInfo.initial {vars : List TaggedVariable} {built : SyncInfo}
    (hbuilt : BuiltInfo vars built) {place recSize : ℕ}
    (hplace : place + built.sampleLength ≤ recSize) :
    Initial vars recSize (built.shifted place) := by
  obtain ⟨first, rest, new, hvars, hnew, hsinfo⟩ := hbuilt
  rw [SyncInfo.addAll_eq] at hsinfo
  unfold SyncInfo.new at hnew
  dsimp only at hnew
  split at hnew
  · cases hnew
  · next hlt =>
      split at hnew
      · cases hnew
      · next hne =>
          cases hnew
          have hid : (built.shifted place).id = built.id := rfl
          have hfields : built.rate = first.floatRate ∧ built.nSlots = slotsPerSecond built.rate ∧
              built.dtUsec = usecsPerSlot built.rate ∧ built.skipMod = skipModulus built.rate ∧
              built.varLengths = (first :: rest).map TaggedVariable.length ∧
              built.varSRIndex = offsets built.nSlots.toNat 1 built.varLengths ∧
              built.sampleLength = 1 + built.varLengths.sum * built.nSlots.toNat ∧
              built.islot = -1 ∧ built.irec = false := by
            rw [hsinfo]
            exact ⟨rfl, rfl, rfl, rfl, rfl, rfl, rfl, rfl, rfl⟩
          obtain ⟨hrate, hslots, hdt, hmod, hlengths, hindices, hlength, hislot, hirec⟩ := hfields
          refine ⟨⟨first, rest, hvars, hrate⟩, hslots, hdt, hmod, ?_, ?_, ?_, ⟨?_, ?_⟩, hislot,
            hirec⟩
          · change built.dtUsec < intLimit
            rw [hdt, hrate]
            exact not_le.mp hlt
          · change built.dtUsec ≠ 0
            rw [hdt, hrate]
            exact hne
          · rw [hid, hvars]
            exact hlengths
          · change built.varSRIndex.map (· + place) =
              offsets built.nSlots.toNat (place + 1) built.varLengths
            rw [hindices, ← offsets_add, Nat.add_comm 1 place]
          · change place + 1 + built.varLengths.sum * built.nSlots.toNat ≤ recSize
            omega

/-- **The state after `init`.** -/
theorem init_spec {vars : List TaggedVariable} {source : SyncSource α}
    (hinit : SyncSource.init vars = .ok source) :
    (∃ infos, Built vars infos source.halfMaxUsecsPerSample ∧
        source.infos.map SyncInfo.id = infos.map SyncInfo.id) ∧
      (∀ sinfo ∈ source.infos, Initial vars source.window.recSize sinfo) ∧
      source.window.current = false ∧ source.window.records = (fun _ => none) ∧
      source.window.allocated = 0 ∧ source.distributed = [] := by
  unfold SyncSource.init at hinit
  cases hadd : addVariables vars [] (-intLimit) with
  | error fault => simp [hadd] at hinit
  | ok built =>
      obtain ⟨infos, half⟩ := built
      simp only [hadd, Except.ok.injEq] at hinit
      subst source
      have hbuilt : Built vars infos half := by simpa using built_addVariables built_nil hadd
      refine ⟨⟨infos, hbuilt, map_id_layOut 0 infos⟩, fun sinfo hmem => ?_, rfl, rfl, rfl, rfl⟩
      obtain ⟨built, hmem', place, rfl, hplace⟩ := of_mem_layOut hmem
      exact (hbuilt.info built hmem').initial hplace

end Nidas.Dynld
