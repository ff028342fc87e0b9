import Mathlib.Data.Finset.Insert
import Nidas.Dynld.WisardMote

/-!
# Ignored sensor types

No sample is created for an item of an ignored sensor type, but the item is unpacked, to come to the
next one.

## Strategy

The loop is compared with the one of a sensor that ignores nothing, item by item (`Same`).  The
cursor is the same behind each item, by `outcome_call`, and the members are, except that without a
sample `unpack10thSec` does not keep the first time difference of a mote (`Agree`); only that
function reads it, and then its sensor type is not ignored.  The comparison fails at the first item
of type `0x05`, if that is ignored: `readInt32` stores through the null pointer.
-/

namespace Nidas.Dynld.Wisard

open Lib

variable {F σ : Type}

/-- The sensor type of the items that `unpackInt32` unpacks. -/
def int32Type : UInt8 := 0x05

/-- The sensor type of the items that `unpack10thSec` unpacks. -/
def tenthSecType : UInt8 := 0x0e

/-- The same sensor with nothing ignored. -/
def Config.ignoringNothing (cfg : Config) : Config := { cfg with ignoredSensorTypes := ∅ }

/-- Some data have an item of a sensor type, which is reached: all items in front of it are of known
types, and are unpacked. -/
inductive HasItem (cfg : Config) (moteId : ℤ) (wanted : UInt8) : List UInt8 → Prop
  | here {fn : UnpackFn} {nfields : ℕ} {cp : List UInt8}
      (hmap : unpackMap wanted = some (fn, nfields)) : HasItem cfg moteId wanted (wanted :: cp)
  | later {sensorType : UInt8} {fn : UnpackFn} {nfields : ℕ} {cp : List UInt8}
      (hmap : unpackMap sensorType = some (fn, nfields))
      (hgood : ¬fn.Throws (cfg.tag moteId sensorType))
      (hitem : HasItem cfg moteId wanted (skipFields (fn.sizes nfields) cp)) :
      HasItem cfg moteId wanted (sensorType :: cp)

/-- An item of type `0x05` is in the data of a message, and is ignored. -/
structure IgnoresInt32 (cfg : Config) (samp : RawSample) (ids : Identities) : Prop where
  ignored : int32Type ∈ cfg.ignoredSensorTypes
  processor : cfg.isProcessor = true
  item : ∃ header cp ids', readMessage samp.data ids = some (header, cp, ids') ∧
    header.messageType = 1 ∧ HasItem cfg header.moteId int32Type cp

/-- The members of a sensor and of one that ignores nothing. -/
structure Agree (ignored : Finset UInt8) (members members' : Members F σ) : Prop where
  ids_eq : members.ids = members'.ids
  tagged_eq : members.tagged = members'.tagged
  tdiff_eq : tenthSecType ∉ ignored → members.tdiff = members'.tdiff

theorem Agree.refl (ignored : Finset UInt8) (members : Members F σ) :
    Agree ignored members members :=
  ⟨rfl, rfl, fun _ => rfl⟩

/-- **What is expected of ignoring**: the samples are those that are produced with nothing ignored,
without the ones of the ignored types, and nothing is stored through null. -/
structure OnlyRemoves (rt : Runtime F σ) (cfg : Config) (samp : RawSample)
    (members members' : Members F σ) : Prop where
  samples : (process rt cfg samp members).samples =
    (process rt cfg.ignoringNothing samp members').samples.filter
      fun sample => sample.1 ∉ cfg.ignoredSensorTypes
  returned : (process rt cfg samp members).returned =
    (process rt cfg.ignoringNothing samp members').returned
  noNullStore : (process rt cfg samp members).returned ≠ .error .nullStore
  members : Agree cfg.ignoredSensorTypes (process rt cfg samp members).members
    (process rt cfg.ignoringNothing samp members').members

/-- **What is expected of an unpack function**: the cursor is left within the data, in a place that
does not depend on whether there is an output sample, and nothing is stored through null. -/
structure Sound (rt : Runtime F σ) (fn : UnpackFn) (nfields : ℕ) : Prop where
  noNullStore : ∀ cp moteId stag ttag fp members,
    fn.call rt cp nfields moteId stag ttag fp members ≠ .error .nullStore
  within : ∀ cp moteId stag ttag fp members r,
    fn.call rt cp nfields moteId stag ttag fp members = .ok r → r.1 <:+ cp
  same : ∀ cp moteId moteId' stag stag' ttag ttag' data members members' r r',
    fn.call rt cp nfields moteId stag ttag (some data) members = .ok r →
      fn.call rt cp nfields moteId' stag' ttag' none members' = .ok r' → r.1 = r'.1

/-! ## The table -/

/-- An entry that is found is one of the table, with the sensor type in its range. -/
theorem exists_of_unpackMap {sensorType : UInt8} {fn : UnpackFn} {nfields : ℕ}
    (hmap : unpackMap sensorType = some (fn, nfields)) :
    ∃ entry ∈ unpackTable, entry.2 = (fn, nfields) ∧ entry.1.1 ≤ sensorType ∧
      sensorType ≤ entry.1.2 := by
  obtain ⟨entry, hfind, hentry⟩ := Option.map_eq_some_iff.mp hmap
  have hrange := List.find?_some hfind
  rw [Bool.and_eq_true, decide_eq_true_iff, decide_eq_true_iff] at hrange
  exact ⟨entry, List.mem_of_find?_eq_some hfind, hentry, hrange⟩

theorem eq_int32Type {sensorType : UInt8} {nfields : ℕ}
    (hmap : unpackMap sensorType = some (.int32, nfields)) :
    sensorType = int32Type ∧ nfields = 1 := by
  obtain ⟨entry, hmem, hentry, hlow, hhigh⟩ := exists_of_unpackMap hmap
  have htable : ∀ entry ∈ unpackTable, entry.2.1 = .int32 →
      entry = ((int32Type, int32Type), .int32, 1) := by decide
  have heq := htable entry hmem (congrArg Prod.fst hentry)
  subst heq
  exact ⟨UInt8.le_antisymm hhigh hlow, (congrArg Prod.snd hentry).symm⟩

theorem eq_tenthSecType {sensorType : UInt8} {nfields : ℕ}
    (hmap : unpackMap sensorType = some (.tenthSec, nfields)) : sensorType = tenthSecType := by
  obtain ⟨entry, hmem, hentry, hlow, hhigh⟩ := exists_of_unpackMap hmap
  have htable : ∀ entry ∈ unpackTable, entry.2.1 = .tenthSec →
      entry.1 = (tenthSecType, tenthSecType) := by decide
  have heq := htable entry hmem (congrArg Prod.fst hentry)
  rw [heq] at hlow hhigh
  exact UInt8.le_antisymm hhigh hlow

theorem unpackMap_int32Type : unpackMap int32Type = some (.int32, 1) := by decide

theorem hasItem_cons_iff {cfg : Config} {moteId : ℤ} {wanted sensorType : UInt8} {fn : UnpackFn}
    {nfields : ℕ} {cp : List UInt8} (hmap : unpackMap sensorType = some (fn, nfields)) :
    HasItem cfg moteId wanted (sensorType :: cp) ↔ wanted = sensorType ∨
      (¬fn.Throws (cfg.tag moteId sensorType) ∧
        HasItem cfg moteId wanted (skipFields (fn.sizes nfields) cp)) := by
  constructor
  · intro hitem
    cases hitem with
    | here _ => exact .inl rfl
    | later hmap' hgood hrest =>
        rw [hmap] at hmap'
        cases hmap'
        exact .inr ⟨hgood, hrest⟩
  · rintro (rfl | ⟨hgood, hrest⟩)
    · exact .here hmap
    · exact .later hmap hgood hrest

/-! ## Unpack functions -/

section Functions

variable {rt : Runtime F σ} {cp : List UInt8} {nfields : ℕ} {moteId : ℤ} {stag : Option SampleTag}
  {ttag : ℤ} {fp : FloatPtr F} {members : Members F σ}

/-- **The unpack functions**: only the one that stores through null is not sound. -/
theorem sound_iff {sensorType : UInt8} {fn : UnpackFn} (members : Members F σ)
    (hmap : unpackMap sensorType = some (fn, nfields)) :
    Sound rt fn nfields ↔ ¬fn.StoresThroughNull := by
  constructor
  · rintro hsound rfl
    obtain ⟨-, rfl⟩ := eq_int32Type hmap
    exact hsound.noNullStore [] 0 none 0 none members (call_int32_null Nat.one_pos)
  · intro hstore
    have hcall : ∀ cp moteId stag ttag (fp : FloatPtr F) (members : Members F σ),
        Outcome (fun r => Called fn nfields cp stag fp members r ∧ ¬fn.Throws stag)
          (fun fault => fault = .badParameter ∧ fn.Throws stag)
          (fn.call rt cp nfields moteId stag ttag fp members) :=
      fun _ _ _ _ _ _ => outcome_call fun hnull => absurd hnull hstore
    constructor
    · intro cp moteId stag ttag fp members hnull
      cases ((hcall cp moteId stag ttag fp members).of_error hnull).1
    · intro cp moteId stag ttag fp members r hr
      rw [((hcall cp moteId stag ttag fp members).of_ok hr).1.cp_eq]
      exact skipFields_suffix _ cp
    · intro cp moteId moteId' stag stag' ttag ttag' data members members' r r' hr hr'
      rw [((hcall cp moteId stag ttag (some data) members).of_ok hr).1.cp_eq,
        ((hcall cp moteId' stag' ttag' none members').of_ok hr').1.cp_eq]

/-- Calls with the same output sample. -/
theorem call_agree {fn : UnpackFn} {ignored : Finset UInt8} {members' : Members F σ}
    {r : List UInt8 × FloatPtr F × Members F σ} (hagree : Agree ignored members members')
    (htenth : fn = .tenthSec → tenthSecType ∉ ignored)
    (hcall : fn.call rt cp nfields moteId stag ttag fp members = .ok r) :
    ∃ after, fn.call rt cp nfields moteId stag ttag fp members' = .ok (r.1, r.2.1, after) ∧
      Agree ignored r.2.2 after := by
  by_cases hfn : fn = .tenthSec
  · -- the only function that reads the time differences
    have hmembers : members = members' := by
      obtain ⟨hids, htagged, htdiff⟩ := hagree
      cases members
      cases members'
      simp_all
    rw [← hmembers, hcall]
    exact ⟨r.2.2, rfl, Agree.refl _ _⟩
  · rw [call_eq_plain hfn] at hcall ⊢
    rw [← hagree.tagged_eq]
    cases hplain : fn.plain rt cp nfields stag ttag fp members.tagged with
    | error fault =>
        rw [hplain] at hcall
        cases hcall
    | ok unpacked =>
        rw [hplain] at hcall
        cases hcall
        exact ⟨_, rfl, hagree.ids_eq, rfl, hagree.tdiff_eq⟩

end Functions

/-! ## Output samples -/

section Values

variable {cfg : Config} {moteId : ℤ} {sensorType : UInt8} {nfields : ℕ}

theorem notMem_ignoringNothing : sensorType ∉ cfg.ignoringNothing.ignoredSensorTypes :=
  Finset.notMem_empty sensorType

theorem isSome_newValues_of_notMem (hmem : sensorType ∉ cfg.ignoredSensorTypes) :
    (cfg.newValues moteId sensorType nfields : FloatPtr F).isSome = true := by
  unfold Config.newValues
  rw [if_neg hmem]
  split <;> rfl

theorem newValues_of_notMem (hmem : sensorType ∉ cfg.ignoredSensorTypes) :
    (cfg.newValues moteId sensorType nfields : FloatPtr F) =
      cfg.ignoringNothing.newValues moteId sensorType nfields := by
  unfold Config.newValues
  rw [if_neg hmem, if_neg notMem_ignoringNothing]
  rfl

theorem newValues_of_mem (htag : cfg.tag moteId sensorType = none)
    (hmem : sensorType ∈ cfg.ignoredSensorTypes) :
    (cfg.newValues moteId sensorType nfields : FloatPtr F) = none := by
  unfold Config.newValues
  rw [htag]
  exact if_pos hmem

end Values

/-! ## The loop -/

section Loop

variable {rt : Runtime F σ} {cfg : Config} {moteId ttag : ℤ}

/-- Two runs over the items, the second one with nothing ignored. -/
structure Same (ignored : Finset UInt8) (run run' : Run F σ) : Prop where
  samples : run.samples = run'.samples.filter fun sample => sample.1 ∉ ignored
  fault : run.fault = run'.fault
  noNullStore : run.fault ≠ some .nullStore
  members : Agree ignored run.members run'.members

theorem Same.ended {ignored : Finset UInt8} {members members' : Members F σ}
    (hagree : Agree ignored members members') {fault : Option Fault}
    (hfault : fault ≠ some .nullStore) :
    Same ignored ⟨[], members, fault⟩ ⟨[], members', fault⟩ :=
  ⟨rfl, rfl, hfault, hagree⟩

/-- What one item does in both runs: the cursor is the same behind it, and the samples of the item
are the same, or there is only the second one and it is of an ignored type. -/
theorem item_same {sensorType : UInt8} {fn : UnpackFn} {nfields : ℕ} {cp : List UInt8}
    {members members' : Members F σ}
    (huntagged : ∀ sensorType ∈ cfg.ignoredSensorTypes, cfg.tag moteId sensorType = none)
    (hagree : Agree cfg.ignoredSensorTypes members members')
    (hmap : unpackMap sensorType = some (fn, nfields))
    (hstore : ¬(sensorType = int32Type ∧ sensorType ∈ cfg.ignoredSensorTypes))
    (hgood : ¬fn.Throws (cfg.tag moteId sensorType)) :
    ∃ fp fp' after after',
      fn.call rt cp nfields moteId (cfg.tag moteId sensorType) ttag
          (cfg.newValues moteId sensorType nfields) members =
        .ok (skipFields (fn.sizes nfields) cp, fp, after) ∧
      fn.call rt cp nfields moteId (cfg.tag moteId sensorType) ttag
          (cfg.ignoringNothing.newValues moteId sensorType nfields) members' =
        .ok (skipFields (fn.sizes nfields) cp, fp', after') ∧
      (fp.map (cfg.outSample moteId sensorType ttag)).toList =
        (fp'.map (cfg.outSample moteId sensorType ttag)).toList.filter
          (fun sample => sample.1 ∉ cfg.ignoredSensorTypes) ∧
      Agree cfg.ignoredSensorTypes after after' := by
  by_cases hmem : sensorType ∈ cfg.ignoredSensorTypes
  · have hnull : ¬fn.StoresThroughNull := by
      rintro rfl
      exact hstore ⟨(eq_int32Type hmap).1, hmem⟩
    rw [newValues_of_mem (huntagged sensorType hmem) hmem]
    obtain ⟨⟨left, fp, after⟩, hcall, hcalled⟩ : ∃ r,
        fn.call rt cp nfields moteId (cfg.tag moteId sensorType) ttag none members = .ok r ∧
          Called fn nfields cp (cfg.tag moteId sensorType) none members r :=
      call_of_good (fun h => absurd h hnull) hgood
    obtain ⟨⟨left', fp', after'⟩, hcall', hcalled'⟩ : ∃ r,
        fn.call rt cp nfields moteId (cfg.tag moteId sensorType) ttag
            (cfg.ignoringNothing.newValues moteId sensorType nfields) members' = .ok r ∧
          Called fn nfields cp (cfg.tag moteId sensorType)
            (cfg.ignoringNothing.newValues moteId sensorType nfields) members' r :=
      call_of_good (fun h => absurd h hnull) hgood
    obtain ⟨rfl, hsome, hids, htagged, htdiff⟩ := hcalled
    obtain ⟨rfl, -, hids', htagged', htdiff'⟩ := hcalled'
    have htag := huntagged sensorType hmem
    refine ⟨fp, fp', after, after', hcall, hcall', ?_, ?_⟩
    · have hfp : fp = none :=
        Option.not_isSome_iff_eq_none.mp (by rw [hsome]; exact Bool.false_ne_true)
      rw [hfp]
      cases fp' with
      | none => rfl
      | some data => simp [Config.outSample, hmem]
    · constructor
      · exact hids.trans (hagree.ids_eq.trans hids'.symm)
      · exact (htagged htag).trans (hagree.tagged_eq.trans (htagged' htag).symm)
      · intro hnot
        have hfn : fn ≠ .tenthSec := by
          rintro rfl
          exact hnot (eq_tenthSecType hmap ▸ hmem)
        exact (htdiff hfn).trans ((hagree.tdiff_eq hnot).trans (htdiff' hfn).symm)
  · rw [newValues_of_notMem hmem]
    obtain ⟨⟨left, fp, after⟩, hcall, hcalled⟩ : ∃ r,
        fn.call rt cp nfields moteId (cfg.tag moteId sensorType) ttag
            (cfg.ignoringNothing.newValues moteId sensorType nfields) members = .ok r ∧
          Called fn nfields cp (cfg.tag moteId sensorType)
            (cfg.ignoringNothing.newValues moteId sensorType nfields) members r :=
      call_of_good (fun _ => isSome_newValues_of_notMem notMem_ignoringNothing) hgood
    have htenth : fn = .tenthSec → tenthSecType ∉ cfg.ignoredSensorTypes := by
      rintro rfl
      exact eq_tenthSecType hmap ▸ hmem
    obtain ⟨after', hcall', hagree'⟩ := call_agree hagree htenth hcall
    have hleft : left = skipFields (fn.sizes nfields) cp := hcalled.cp_eq
    subst hleft
    refine ⟨fp, fp, after, after', hcall, hcall', ?_, hagree'⟩
    cases fp with
    | none => rfl
    | some data => simp [Config.outSample, hmem]

/-- **One run is the other one without the samples of the ignored types**, as long as no item of
type `0x05` is ignored. -/
theorem unpackItems_same
    (huntagged : ∀ sensorType ∈ cfg.ignoredSensorTypes, cfg.tag moteId sensorType = none)
    (fuel : ℕ) : ∀ (cp : List UInt8) (members members' : Members F σ),
      ¬(int32Type ∈ cfg.ignoredSensorTypes ∧ HasItem cfg moteId int32Type cp) →
      Agree cfg.ignoredSensorTypes members members' →
      Same cfg.ignoredSensorTypes (unpackItems rt cfg moteId ttag fuel cp members)
        (unpackItems rt cfg.ignoringNothing moteId ttag fuel cp members') := by
  induction fuel with
  | zero => intro cp members members' _ hagree; exact Same.ended hagree (by decide)
  | succ fuel ih =>
      intro cp members members' hitem hagree
      cases cp with
      | nil => exact Same.ended hagree (by decide)
      | cons sensorType cp =>
          unfold unpackItems
          cases hmap : unpackMap sensorType with
          | none => exact Same.ended hagree (by decide)
          | some entry =>
              obtain ⟨fn, nfields⟩ := entry
              rw [hasItem_cons_iff hmap] at hitem
              have hstore : ¬(sensorType = int32Type ∧ sensorType ∈ cfg.ignoredSensorTypes) := by
                rintro ⟨rfl, hmem⟩
                exact hitem ⟨hmem, .inl rfl⟩
              have hnull : fn.StoresThroughNull →
                  (cfg.newValues moteId sensorType nfields : FloatPtr F).isSome = true := by
                rintro rfl
                exact isSome_newValues_of_notMem fun hmem => hstore ⟨(eq_int32Type hmap).1, hmem⟩
              have hnull' : fn.StoresThroughNull → (cfg.ignoringNothing.newValues moteId sensorType
                  nfields : FloatPtr F).isSome = true :=
                fun _ => isSome_newValues_of_notMem notMem_ignoringNothing
              by_cases hthrows : fn.Throws (cfg.tag moteId sensorType)
              · dsimp only
                rw [call_of_throws hnull hthrows]
                rw [show cfg.ignoringNothing.tag = cfg.tag from rfl, call_of_throws hnull' hthrows]
                exact Same.ended hagree (by decide)
              · obtain ⟨fp, fp', after, after', hcall, hcall', hsamples, hagree'⟩ :=
                  item_same huntagged hagree hmap hstore hthrows
                dsimp only
                rw [hcall, show cfg.ignoringNothing.tag = cfg.tag from rfl, hcall']
                have hrest := ih _ after after'
                  (fun h => hitem ⟨h.1, .inr ⟨hthrows, h.2⟩⟩) hagree'
                refine ⟨?_, hrest.fault, hrest.noNullStore, hrest.members⟩
                dsimp only
                rw [hrest.samples, hsamples, List.filter_append]
                rfl

/-- **An ignored item of type `0x05` ends the run with a store through null.** -/
theorem unpackItems_nullStore
    (huntagged : ∀ sensorType ∈ cfg.ignoredSensorTypes, cfg.tag moteId sensorType = none)
    (hmem : int32Type ∈ cfg.ignoredSensorTypes) {cp : List UInt8}
    (hitem : HasItem cfg moteId int32Type cp) :
    ∀ (fuel : ℕ) (members : Members F σ), cp.length ≤ fuel →
      (unpackItems rt cfg moteId ttag fuel cp members).fault = some .nullStore := by
  have hnullStore : ∀ (cp : List UInt8) (fuel : ℕ) (members : Members F σ),
      (int32Type :: cp).length ≤ fuel →
        (unpackItems rt cfg moteId ttag fuel (int32Type :: cp) members).fault =
          some .nullStore := by
    intro cp fuel members hfuel
    cases fuel with
    | zero => cases hfuel
    | succ fuel =>
        unfold unpackItems
        rw [unpackMap_int32Type]
        dsimp only
        rw [newValues_of_mem (huntagged int32Type hmem) hmem, call_int32_null Nat.one_pos]
  induction hitem with
  | here _ => exact hnullStore _
  | @later sensorType fn nfields cp hmap hgood _ ih =>
      intro fuel members hfuel
      by_cases hint : sensorType = int32Type
      · rw [hint] at hfuel ⊢
        exact hnullStore cp fuel members hfuel
      · have hnull : ¬fn.StoresThroughNull := by
          rintro rfl
          exact hint (eq_int32Type hmap).1
        cases fuel with
        | zero => cases hfuel
        | succ fuel =>
            obtain ⟨⟨left, fp, after⟩, hcall, hcalled⟩ : ∃ r,
                fn.call rt cp nfields moteId (cfg.tag moteId sensorType) ttag
                    (cfg.newValues moteId sensorType nfields) members = .ok r ∧
                  Called fn nfields cp (cfg.tag moteId sensorType)
                    (cfg.newValues moteId sensorType nfields) members r :=
              call_of_good (fun h => absurd h hnull) hgood
            have hleft : left = skipFields (fn.sizes nfields) cp := hcalled.cp_eq
            subst hleft
            unfold unpackItems
            rw [hmap]
            dsimp only
            rw [hcall]
            apply ih
            have hshort := length_skipFields_le (fn.sizes nfields) cp
            rw [List.length_cons] at hfuel
            omega

end Loop

/-! ## Messages -/

section Messages

variable {rt : Runtime F σ} {cfg : Config} {members members' : Members F σ}

/-- No sensor type that is ignored has a sample tag. -/
def Untagged (cfg : Config) : Prop :=
  ∀ moteId, ∀ sensorType ∈ cfg.ignoredSensorTypes, cfg.tag moteId sensorType = none

/-- `process` of a data message. -/
theorem process_of_data {samp : RawSample} {header : MessageHeader} {cp : List UInt8}
    {ids : Identities} (hprocessor : cfg.isProcessor = true)
    (hread : readMessage samp.data members.ids = some (header, cp, ids))
    (htype : header.messageType = 1) :
    process rt cfg samp members =
      let run := unpackItems rt cfg header.moteId samp.timeTag cp.length cp { members with ids }
      ⟨(match run.fault with | some fault => .error fault | none => .ok true), run.samples,
        run.members⟩ := by
  unfold process
  rw [if_pos hprocessor, hread]
  exact if_pos htype

/-- A message from which nothing is unpacked, with the members that it leaves. -/
theorem OnlyRemoves.of_nothing {samp : RawSample} {after after' : Members F σ}
    (hleft : process rt cfg samp members = ⟨.ok false, [], after⟩)
    (hright : process rt cfg.ignoringNothing samp members' = ⟨.ok false, [], after'⟩)
    (hagree : Agree cfg.ignoredSensorTypes after after') :
    OnlyRemoves rt cfg samp members members' := by
  constructor
  · rw [hleft, hright]
    rfl
  · rw [hleft, hright]
  · rw [hleft]
    exact fun h => by cases h
  · rw [hleft, hright]
    exact hagree

theorem onlyRemoves_of_not_ignoresInt32 (huntagged : Untagged cfg) {samp : RawSample}
    (hagree : Agree cfg.ignoredSensorTypes members members')
    (hitem : ¬IgnoresInt32 cfg samp members.ids) : OnlyRemoves rt cfg samp members members' := by
  by_cases hprocessor : cfg.isProcessor = true
  · cases hread : readMessage samp.data members.ids with
    | none =>
        have hread' : readMessage samp.data members'.ids = none := hagree.ids_eq ▸ hread
        exact OnlyRemoves.of_nothing (process_eq_of_readMessage_none hread)
          (process_eq_of_readMessage_none hread') hagree
    | some message =>
        obtain ⟨header, cp, ids⟩ := message
        have hread' : readMessage samp.data members'.ids = some (header, cp, ids) :=
          hagree.ids_eq ▸ hread
        have hstart : Agree cfg.ignoredSensorTypes { members with ids } { members' with ids } :=
          ⟨rfl, hagree.tagged_eq, hagree.tdiff_eq⟩
        by_cases htype : header.messageType = 1
        · obtain ⟨run, hrun⟩ : ∃ run, run =
              unpackItems rt cfg header.moteId samp.timeTag cp.length cp { members with ids } :=
            ⟨_, rfl⟩
          obtain ⟨run', hrun'⟩ : ∃ run', run' = unpackItems rt cfg.ignoringNothing header.moteId
              samp.timeTag cp.length cp { members' with ids } :=
            ⟨_, rfl⟩
          have hsame : Same cfg.ignoredSensorTypes run run' := by
            rw [hrun, hrun']
            exact unpackItems_same (huntagged header.moteId) cp.length cp _ _
              (fun h => hitem ⟨h.1, hprocessor, header, cp, ids, hread, htype, h.2⟩) hstart
          have hleft : process rt cfg samp members = _ := process_of_data hprocessor hread htype
          have hright : process rt cfg.ignoringNothing samp members' = _ :=
            process_of_data hprocessor hread' htype
          dsimp only at hleft hright
          rw [← hrun] at hleft
          rw [← hrun'] at hright
          constructor
          · rw [hleft, hright]
            exact hsame.samples
          · rw [hleft, hright]
            dsimp only
            rw [hsame.fault]
          · rw [hleft]
            dsimp only
            intro hnull
            split at hnull
            · next hfault =>
                cases hnull
                exact hsame.noNullStore hfault
            · cases hnull
          · rw [hleft, hright]
            exact hsame.members
        · have hnothing : ∀ (other : Config) (start : Members F σ), other.isProcessor = true →
              readMessage samp.data start.ids = some (header, cp, ids) →
              process rt other samp start = ⟨.ok false, [], { start with ids }⟩ := by
            intro other start hother hstart
            unfold process
            rw [if_pos hother, hstart]
            exact if_neg htype
          exact OnlyRemoves.of_nothing (hnothing cfg members hprocessor hread)
            (hnothing cfg.ignoringNothing members' hprocessor hread') hstart
  · exact OnlyRemoves.of_nothing (if_neg hprocessor) (if_neg hprocessor) hagree

theorem process_of_ignoresInt32 (huntagged : Untagged cfg) {samp : RawSample}
    (hitem : IgnoresInt32 cfg samp members.ids) :
    (process rt cfg samp members).returned = .error .nullStore := by
  obtain ⟨hmem, hprocessor, header, cp, ids, hread, htype, hhas⟩ := hitem
  rw [process_of_data hprocessor hread htype]
  dsimp only
  rw [unpackItems_nullStore (huntagged header.moteId) hmem hhas cp.length _ le_rfl]

/-- **Ignoring sensor types**: it only removes their samples if and only if the message has no item
of the type `0x05` that is ignored; and all unpack functions are sound but the one of that type. -/
theorem onlyRemoves_iff (rt : Runtime F σ) (samp : RawSample) (huntagged : Untagged cfg)
    (hagree : Agree cfg.ignoredSensorTypes members members') :
    (OnlyRemoves rt cfg samp members members' ↔ ¬IgnoresInt32 cfg samp members.ids) ∧
      ∀ sensorType fn nfields, unpackMap sensorType = some (fn, nfields) →
        (Sound rt fn nfields ↔ ¬fn.StoresThroughNull) := by
  refine ⟨?_, fun sensorType fn nfields hmap => sound_iff members hmap⟩
  constructor
  · intro honly hitem
    exact honly.noNullStore (process_of_ignoresInt32 huntagged hitem)
  · exact onlyRemoves_of_not_ignoresInt32 huntagged hagree

/-- A run over raw samples, with all samples of the results. -/
def processAll (rt : Runtime F σ) (cfg : Config) :
    List RawSample → Members F σ → List (UInt8 × OutSample F)
  | [], _ => []
  | samp :: samps, members =>
      let processed := process rt cfg samp members
      processed.samples ++ processAll rt cfg samps processed.members

/-- **Ignoring sensor types in a run**, in which no item of type `0x05` is ignored. -/
theorem processAll_ignored (huntagged : Untagged cfg) {samps : List RawSample}
    (hitems : ∀ samp ∈ samps, ∀ ids, ¬IgnoresInt32 cfg samp ids)
    (hagree : Agree cfg.ignoredSensorTypes members members') :
    processAll rt cfg samps members =
      (processAll rt cfg.ignoringNothing samps members').filter
        fun sample => sample.1 ∉ cfg.ignoredSensorTypes := by
  induction samps generalizing members members' with
  | nil => rfl
  | cons samp samps ih =>
      have honly : OnlyRemoves rt cfg samp members members' :=
        onlyRemoves_of_not_ignoresInt32 huntagged hagree
          (hitems samp List.mem_cons_self members.ids)
      have hrest := ih (fun other hother => hitems other (List.mem_cons_of_mem samp hother))
        honly.members
      unfold processAll
      rw [List.filter_append, ← hrest, ← honly.samples]

end Messages

/-! ## A message with an ignored integer -/

/-- As `bareConfig`, with the integers of 32 bits ignored. -/
def ignoringInt32 : Config := { bareConfig with ignoredSensorTypes := {int32Type} }

theorem untagged_ignoringInt32 : Untagged ignoringInt32 := fun _ _ _ => rfl

/-- The message of `straySample` without the stray byte. -/
def statusSample : RawSample := ⟨0, strayBody.drop 1 ++ eom⟩

theorem onlyRemoves_iff_status :
    (OnlyRemoves intRuntime ignoringInt32 statusSample newMembers newMembers ↔
        ¬IgnoresInt32 ignoringInt32 statusSample newMembers.ids) ∧
      ∀ sensorType fn nfields, unpackMap sensorType = some (fn, nfields) →
        (Sound intRuntime fn nfields ↔ ¬fn.StoresThroughNull) :=
  onlyRemoves_iff intRuntime statusSample untagged_ignoringInt32 (Agree.refl _ _)

/-- A message of mote 1 with an integer of 32 bits. -/
def int32Body : List UInt8 :=
  [0x49, 0x44, 0x31, 0x3a, 0x01, 0x01, 0x07, 0x05, 0x2a, 0x00, 0x00, 0x00, 0x22]

/-- The integer is ignored by storing it through null. -/
theorem not_onlyRemoves_int32 :
    Untagged ignoringInt32 ∧ checkEOM (int32Body ++ eom) = some int32Body ∧
      checkCRC int32Body = some 0 ∧
      ¬OnlyRemoves intRuntime ignoringInt32 ⟨0, int32Body ++ eom⟩ newMembers newMembers := by
  have heom : checkEOM (int32Body ++ eom) = some int32Body := by decide
  have hcrc : checkCRC int32Body = some 0 := checkCRC_of_right (by decide)
  refine ⟨untagged_ignoringInt32, heom, hcrc, fun honly => ?_⟩
  have hread : readMessage (int32Body ++ eom) newMembers.ids =
      readHead int32Body.dropLast newMembers.ids := by
    unfold readMessage
    rw [heom]
    simp only [hcrc]
  have hhead : (readHead int32Body.dropLast newMembers.ids).map
      (fun head => (head.1.messageType, head.2.1)) = some (1, [0x05, 0x2a, 0x00, 0x00, 0x00]) := by
    decide +kernel
  obtain ⟨⟨header, cp, ids⟩, hsome, hparts⟩ := Option.map_eq_some_iff.mp hhead
  obtain ⟨htype, hcp⟩ : header.messageType = 1 ∧ cp = _ := Prod.mk.inj hparts
  subst hcp
  have hitem : IgnoresInt32 ignoringInt32 ⟨0, int32Body ++ eom⟩ newMembers.ids :=
    ⟨by decide, rfl, header, _, ids, hread.trans hsome, htype, .here unpackMap_int32Type⟩
  exact honly.noNullStore (process_of_ignoresInt32 untagged_ignoringInt32 hitem)

end Nidas.Dynld.Wisard
