import Nidas.Dynld.WisardUnpack

/-!
# What the unpack functions do to their pointers

Each unpack function goes behind the fields of its item that are there as a whole, with or without
an output sample (`outcome_call`).  Only `unpackInt32` stores through a null pointer.
-/

namespace Nidas.Dynld.Wisard

open Lib

variable {F σ : Type} (rt : Runtime F σ)

/-- The unpack functions. -/
inductive UnpackFn where
  | picTime
  | uint16
  | int16
  | uint32
  | int32
  | accumSec
  | hundredthSec
  | tenthSec
  | picTimeFields
  | trh
  | tsoil
  | gsoil
  | qsoil
  | tp01
  | status
  | xbee
  | power
  | rnet
  | rsw
  | rlw
  | rlwKZ
  | cnr2
  | rsw2
  | nr01
  deriving DecidableEq, Repr

/-- The unpack functions with the numbers of their fields, by ranges of sensor types
(`initFuncMap`). -/
def unpackTable : List ((UInt8 × UInt8) × UnpackFn × ℕ) :=
  [((0x01, 0x01), .picTime, 1), ((0x04, 0x04), .int16, 1), ((0x05, 0x05), .int32, 1),
    ((0x0b, 0x0b), .accumSec, 1), ((0x0c, 0x0c), .uint32, 1), ((0x0d, 0x0d), .hundredthSec, 1),
    ((0x0e, 0x0e), .tenthSec, 2), ((0x0f, 0x0f), .picTimeFields, 4), ((0x10, 0x13), .trh, 3),
    ((0x1c, 0x1f), .uint16, 2), ((0x20, 0x23), .tsoil, ntsoils * 2), ((0x24, 0x27), .gsoil, 1),
    ((0x28, 0x2b), .qsoil, 1), ((0x2c, 0x2f), .tp01, 5), ((0x30, 0x33), .int16, 5),
    ((0x34, 0x37), .int16, 4), ((0x38, 0x3b), .int16, 1), ((0x3c, 0x3f), .int16, 1),
    ((0x40, 0x40), .status, 1), ((0x41, 0x41), .xbee, 7), ((0x49, 0x49), .power, 6),
    ((0x4c, 0x4f), .nr01, 8), ((0x50, 0x53), .rnet, 1), ((0x54, 0x57), .rsw, 1),
    ((0x58, 0x5b), .rsw, 1), ((0x5c, 0x5f), .rlw, 5), ((0x60, 0x63), .rlw, 5),
    ((0x64, 0x67), .rlwKZ, 2), ((0x68, 0x6b), .rlwKZ, 2), ((0x6c, 0x6f), .cnr2, 2),
    ((0x70, 0x73), .rsw2, 2), ((0x74, 0x77), .rsw, 1)]

/-- `_unpackMap`: the function for a sensor type, with the number of fields. -/
def unpackMap (sensorType : UInt8) : Option (UnpackFn × ℕ) :=
  (unpackTable.find? fun entry => entry.1.1 ≤ sensorType && sensorType ≤ entry.1.2).map Prod.snd

/-- The members that unpacking and headers change. -/
structure Members (F σ : Type) where
  ids : Identities
  /-- `_tdiffByMoteId` -/
  tdiff : ℤ → ℤ
  tagged : TagMembers F σ

/-- The unpack functions that only change members of tagged samples.  `unpack10thSec` is not one of
them. -/
def UnpackFn.plain (cp : List UInt8) (nfields : ℕ) (stag : Option SampleTag) (ttag : ℤ)
    (fp : FloatPtr F) (members : TagMembers F σ) : UnpackFn → Except Fault (Unpacked F σ)
  | .picTime => unpackPicTime rt cp nfields stag ttag fp members
  | .uint16 => unpackUint16 rt cp nfields stag ttag fp members
  | .int16 => unpackInt16 rt cp nfields stag ttag fp members
  | .uint32 => unpackUint32 rt cp nfields stag ttag fp members
  | .int32 => unpackInt32 rt cp nfields stag ttag fp members
  | .accumSec => unpackAccumSec rt cp nfields stag ttag fp members
  | .hundredthSec => unpack100thSec rt cp nfields stag ttag fp members
  | .tenthSec => .ok ⟨cp, fp, members⟩
  | .picTimeFields => unpackPicTimeFields rt cp nfields stag ttag fp members
  | .trh => unpackTRH rt cp nfields stag ttag fp members
  | .tsoil => unpackTsoil rt cp nfields stag ttag fp members
  | .gsoil => unpackGsoil rt cp nfields stag ttag fp members
  | .qsoil => unpackQsoil rt cp nfields stag ttag fp members
  | .tp01 => unpackTP01 rt cp nfields stag ttag fp members
  | .status => unpackStatus rt cp nfields stag ttag fp members
  | .xbee => unpackXbee rt cp nfields stag ttag fp members
  | .power => unpackPower rt cp nfields stag ttag fp members
  | .rnet => unpackRnet rt cp nfields stag ttag fp members
  | .rsw => unpackRsw rt cp nfields stag ttag fp members
  | .rlw => unpackRlw rt cp nfields stag ttag fp members
  | .rlwKZ => unpackRlwKZ rt cp nfields stag ttag fp members
  | .cnr2 => unpackCNR2 rt cp nfields stag ttag fp members
  | .rsw2 => unpackRsw2 rt cp nfields stag ttag fp members
  | .nr01 => unpackNR01 rt cp nfields stag ttag fp members

/-- The call of an unpack function: what is left of the data, the values of the sample, and the
members. -/
def UnpackFn.call (fn : UnpackFn) (cp : List UInt8) (nfields : ℕ) (moteId : ℤ)
    (stag : Option SampleTag) (ttag : ℤ) (fp : FloatPtr F) (members : Members F σ) :
    Except Fault (List UInt8 × FloatPtr F × Members F σ) :=
  if fn = .tenthSec then do
    let r ← unpack10thSec rt cp nfields moteId stag ttag fp members.tagged members.tdiff
    return (r.1.cp, r.1.fp, { members with tagged := r.1.members, tdiff := r.2 })
  else do
    let r ← fn.plain rt cp nfields stag ttag fp members.tagged
    return (r.cp, r.fp, { members with tagged := r.members })

/-- The sizes of the fields of an item. -/
def UnpackFn.sizes (nfields : ℕ) : UnpackFn → List ℕ
  | .uint32 | .int32 | .hundredthSec => List.replicate nfields 4
  | .accumSec | .tenthSec => [4]
  | .picTimeFields => [2, 1, 1, 1]
  | .tsoil => List.replicate ntsoils 2
  | .tp01 => List.replicate 5 2
  | .status => [1]
  | .power => List.replicate (4 + (nfields - 4)) 2
  | _ => List.replicate nfields 2

/-! ## Readers -/

section Readers

variable {rt} {guarded : Bool} {fp : FloatPtr F} {fmt : IntFormat} {scale : ℚ}

/-- Neither test nor need of one: a guarded store, or a pointer that is not null. -/
theorem outcome_store (hfp : guarded = true ∨ fp.isSome = true) (k : ℕ) (value : F) :
    Outcome (fun fp' => fp'.isSome = fp.isSome) (fun _ => False) (store guarded fp k value) := by
  cases fp with
  | some data => rfl
  | none =>
      cases hfp with
      | inl hguarded => rw [hguarded]; rfl
      | inr hsome => cases hsome

theorem outcome_fillFields (count : ℕ) :
    ∀ (fp : FloatPtr F) (k : ℕ), (guarded = true ∨ fp.isSome = true) →
      Outcome (fun fp' => fp'.isSome = fp.isSome) (fun _ => False)
        (fillFields rt guarded count k fp) := by
  induction count with
  | zero => intro fp k _; rfl
  | succ count ih =>
      intro fp k hfp
      apply (outcome_store hfp k rt.nan).bind
      intro fp' hsome
      rw [← hsome] at hfp ⊢
      exact ih fp' (k + 1) hfp

/-- A reader goes behind the fields that are there. -/
theorem outcome_readFields (nfields : ℕ) :
    ∀ (cp : List UInt8) (fp : FloatPtr F) (k : ℕ), (guarded = true ∨ fp.isSome = true) →
      Outcome
        (fun r => r.1 = skipFields (List.replicate nfields fmt.size) cp ∧ r.2.isSome = fp.isSome)
        (fun _ => False) (readFields rt fmt guarded scale nfields k cp fp) := by
  induction nfields with
  | zero => intro cp fp k _; exact ⟨rfl, rfl⟩
  | succ nfields ih =>
      intro cp fp k hfp
      rw [List.replicate_succ, readFields]
      split
      · next hlt =>
          apply (outcome_fillFields (nfields + 1) fp k hfp).bind
          intro fp' hsome
          exact ⟨(skipFields_of_lt hlt).symm, hsome⟩
      · next hle =>
          rw [skipFields_of_le (Nat.not_lt.mp hle)]
          apply (outcome_store hfp k _).bind
          intro fp' hsome
          rw [← hsome] at hfp ⊢
          exact ih _ fp' (k + 1) hfp

/-- A reader that does not test its pointer stores through null, for any data. -/
theorem readFields_null {nfields : ℕ} (hpos : 0 < nfields) (k : ℕ) (cp : List UInt8) :
    readFields rt fmt false scale nfields k cp none = .error .nullStore := by
  cases nfields with
  | zero => cases hpos
  | succ nfields =>
      rw [readFields]
      split <;> rfl

end Readers

/-! ## Unpack functions -/

section Functions

variable {rt} {cp : List UInt8} {nfields : ℕ} {stag : Option SampleTag} {ttag : ℤ} {fp : FloatPtr F}
  {members : TagMembers F σ}

@[simp] theorem isSome_fillFrom : (fillFrom rt nfields fp).isSome = fp.isSome := Option.isSome_map

@[simp] theorem isSome_setValue {k : ℕ} {value : F} : (setValue k value fp).isSome = fp.isSome :=
  Option.isSome_map

@[simp] theorem isSome_convert : (convert rt stag ttag fp members).1.isSome = fp.isSome := by
  unfold convert
  split <;> rfl

@[simp] theorem convert_untagged : (convert rt none ttag fp members).2 = members := rfl

/-- What is expected of an unpack function: it goes behind the fields that are there, the pointer to
values stays null or not, and without a tag no member is changed. -/
structure Moves (sizes : List ℕ) (cp : List UInt8) (stag : Option SampleTag) (fp : FloatPtr F)
    (members : TagMembers F σ) (r : Unpacked F σ) : Prop where
  cp_eq : r.cp = skipFields sizes cp
  isSome_eq : r.fp.isSome = fp.isSome
  members_eq : stag = none → r.members = members

/-- The last steps of many functions. -/
theorem Moves.convert {sizes : List ℕ} {left : List UInt8} {fp' : FloatPtr F}
    (hcp : left = skipFields sizes cp) (hsome : fp'.isSome = fp.isSome) :
    Moves sizes cp stag fp members
      ⟨left, (Wisard.convert rt stag ttag fp' members).1,
        (Wisard.convert rt stag ttag fp' members).2⟩ where
  cp_eq := hcp
  isSome_eq := isSome_convert.trans hsome
  members_eq := by
    rintro rfl
    rfl

theorem outcome_unpackFields {fmt : IntFormat} {guarded : Bool} {scale : ℚ}
    (hfp : guarded = true ∨ fp.isSome = true) :
    Outcome (Moves (List.replicate nfields fmt.size) cp stag fp members) (fun _ => False)
      (unpackFields rt fmt guarded scale cp nfields stag ttag fp members) := by
  apply (outcome_readFields nfields cp fp 0 hfp).bind
  rintro ⟨left, fp'⟩ ⟨hcp, hsome⟩
  exact Moves.convert hcp (isSome_fillFrom.trans hsome)

theorem outcome_unpackAccumSec :
    Outcome (Moves [4] cp stag fp members) (fun _ => False)
      (unpackAccumSec rt cp nfields stag ttag fp members) := by
  unfold unpackAccumSec
  rcases Nat.lt_or_ge cp.length 4 with hlt | hle
  · simp only [hlt, if_true]
    exact Moves.convert (skipFields_of_lt hlt).symm (by simp)
  · simp only [Nat.not_lt.mpr hle, if_false]
    apply Moves.convert
    · rw [skipFields_of_le hle]
      rfl
    · split <;> simp

theorem outcome_unpackPicTimeFields :
    Outcome (Moves [2, 1, 1, 1] cp stag fp members) (fun _ => False)
      (unpackPicTimeFields rt cp nfields stag ttag fp members) := by
  match cp with
  | [] => exact ⟨rfl, by simp, fun _ => rfl⟩
  | [_] => exact ⟨rfl, by simp, fun _ => rfl⟩
  | [_, _] => exact ⟨rfl, by simp, fun _ => rfl⟩
  | [_, _, _] => exact ⟨rfl, by simp, fun _ => rfl⟩
  | [_, _, _, _] => exact ⟨rfl, by simp, fun _ => rfl⟩
  | _ :: _ :: _ :: _ :: _ :: left => exact Moves.convert (by simp [skipFields]) (by simp)

theorem outcome_unpackStatus :
    Outcome (Moves [1] cp stag fp members) (fun _ => False)
      (unpackStatus rt cp nfields stag ttag fp members) := by
  cases cp with
  | nil => exact ⟨rfl, rfl, fun _ => rfl⟩
  | cons val left => exact Moves.convert (by simp [skipFields]) (by simp)

theorem outcome_unpackTRH :
    Outcome (Moves (List.replicate nfields 2) cp stag fp members) (fun _ => False)
      (unpackTRH rt cp nfields stag ttag fp members) := by
  apply (outcome_readFields nfields cp fp 0 (.inl rfl)).bind
  rintro ⟨left, fp'⟩ ⟨hcp, hsome⟩
  have hfill : (fillFrom rt nfields fp').isSome = fp.isSome := isSome_fillFrom.trans hsome
  dsimp only
  split
  · next hdata =>
      rw [hdata] at hfill
      exact ⟨hcp, hfill, fun h => by cases h⟩
  · exact ⟨hcp, hfill, fun _ => rfl⟩

/-- The parameter of a tag that `unpackTsoil` cannot use. -/
def BadTsoil (stag : Option SampleTag) : Prop := stag.bind SampleTag.tsoilUnsigned16 = some none

instance (stag : Option SampleTag) : Decidable (BadTsoil stag) :=
  inferInstanceAs (Decidable (_ = _))

theorem outcome_unpackTsoil :
    Outcome (fun r => Moves (List.replicate ntsoils 2) cp stag fp members r ∧ ¬BadTsoil stag)
      (fun fault => fault = .badParameter ∧ BadTsoil stag)
      (unpackTsoil rt cp nfields stag ttag fp members) := by
  have hread : ∀ unsigned : Bool, Outcome
      (fun r => r.1 = skipFields (List.replicate ntsoils 2) cp ∧ r.2.isSome = fp.isSome)
      (fun fault => fault = .badParameter ∧ BadTsoil stag)
      ((if unsigned then readUint16 rt else readInt16 rt) (1 / 100) ntsoils 0 cp fp) := by
    intro unsigned
    cases unsigned
    · exact (outcome_readFields ntsoils cp fp 0 (.inl rfl)).mono (fun _ h => h) fun _ h => h.elim
    · exact (outcome_readFields ntsoils cp fp 0 (.inl rfl)).mono (fun _ h => h) fun _ h => h.elim
  have hparam : Outcome (fun _ => ¬BadTsoil stag)
      (fun fault => fault = .badParameter ∧ BadTsoil stag) (tsoilIsUint16 stag) := by
    unfold tsoilIsUint16 BadTsoil
    split
    · next h => simp [h]
    · next h => exact ⟨rfl, h⟩
    · next h => simp [h]
  apply hparam.bind
  intro unsigned hgood
  apply (hread unsigned).bind
  rintro ⟨left, fp'⟩ ⟨hcp, hsome⟩
  have hfill : (fillFrom rt ntsoils fp').isSome = fp.isSome := isSome_fillFrom.trans hsome
  dsimp only
  split
  · next hdata =>
      rw [hdata] at hfill
      exact ⟨⟨hcp, hfill, fun h => by cases h⟩, hgood⟩
  · exact ⟨⟨hcp, hfill, fun _ => rfl⟩, hgood⟩

theorem outcome_unpackTP01 :
    Outcome (Moves (List.replicate 5 2) cp stag fp members) (fun _ => False)
      (unpackTP01 rt cp nfields stag ttag fp members) := by
  apply (outcome_readFields 2 cp fp 0 (.inl rfl)).bind
  rintro ⟨left, fp'⟩ ⟨hcp, hsome⟩
  apply (outcome_readFields 1 left fp' 2 (.inl rfl)).bind
  rintro ⟨left', fp''⟩ ⟨hcp', hsome'⟩
  apply (outcome_readFields 2 left' fp'' 3 (.inl rfl)).bind
  rintro ⟨left'', fp'''⟩ ⟨hcp'', hsome''⟩
  dsimp only at hcp hsome hcp' hsome' hcp'' hsome''
  refine ⟨?_, ?_, ?_⟩
  · show left'' = _
    rw [hcp'', hcp', hcp]
    exact (skipFields_replicate_add 3 2 cp ▸ skipFields_replicate_add 2 1 cp ▸ rfl)
  · simp [hsome'', hsome', hsome]
  · rintro rfl
    rfl

theorem outcome_unpackPower :
    Outcome (Moves (List.replicate (4 + (nfields - 4)) 2) cp stag fp members) (fun _ => False)
      (unpackPower rt cp nfields stag ttag fp members) := by
  apply (outcome_readFields 3 cp fp 0 (.inl rfl)).bind
  rintro ⟨left, fp'⟩ ⟨hcp, hsome⟩
  apply (outcome_readFields 1 left fp' 3 (.inl rfl)).bind
  rintro ⟨left', fp''⟩ ⟨hcp', hsome'⟩
  apply (outcome_readFields (nfields - 4) left' fp'' 4 (.inl rfl)).bind
  rintro ⟨left'', fp'''⟩ ⟨hcp'', hsome''⟩
  dsimp only at hcp hsome hcp' hsome' hcp'' hsome''
  apply Moves.convert
  · rw [hcp'', hcp', hcp]
    exact (skipFields_replicate_add 4 (nfields - 4) cp ▸ skipFields_replicate_add 3 1 cp ▸ rfl)
  · rw [isSome_fillFrom, hsome'', hsome', hsome]

theorem outcome_unpackScaled {scaled : ℕ → List (Option F) → List (Option F)} :
    Outcome (Moves (List.replicate nfields 2) cp stag fp members) (fun _ => False)
      (unpackScaled rt scaled cp nfields stag ttag fp members) := by
  apply (outcome_readFields nfields cp fp 0 (.inl rfl)).bind
  rintro ⟨left, fp'⟩ ⟨hcp, hsome⟩
  exact Moves.convert hcp (by simp [hsome])

/-- The functions that store through null when there is no output sample. -/
def UnpackFn.StoresThroughNull (fn : UnpackFn) : Prop := fn = .int32

instance (fn : UnpackFn) : Decidable fn.StoresThroughNull := inferInstanceAs (Decidable (_ = _))

/-- The functions that throw, by the tag. -/
def UnpackFn.Throws (fn : UnpackFn) (stag : Option SampleTag) : Prop := fn = .tsoil ∧ BadTsoil stag

instance (fn : UnpackFn) (stag : Option SampleTag) : Decidable (fn.Throws stag) :=
  inferInstanceAs (Decidable (_ ∧ _))

private theorem outcome_of_total {fn : UnpackFn} {P : Unpacked F σ → Prop}
    {x : Except Fault (Unpacked F σ)} (hne : fn ≠ .tsoil) (hx : Outcome P (fun _ => False) x) :
    Outcome (fun r => P r ∧ ¬fn.Throws stag) (fun fault => fault = .badParameter ∧ fn.Throws stag)
      x :=
  hx.mono (fun _ hr => ⟨hr, fun hthrows => hne hthrows.1⟩) fun _ hfalse => hfalse.elim

/-- **What unpack functions do**, but for the one that stores through null. -/
theorem outcome_plain {fn : UnpackFn} (hfn : fn ≠ .tenthSec)
    (hstore : fn.StoresThroughNull → fp.isSome = true) :
    Outcome (fun r => Moves (fn.sizes nfields) cp stag fp members r ∧ ¬fn.Throws stag)
      (fun fault => fault = .badParameter ∧ fn.Throws stag)
      (fn.plain rt cp nfields stag ttag fp members) := by
  cases fn with
  | tenthSec => exact absurd rfl hfn
  | tsoil =>
      have htsoil : Outcome _ _ (unpackTsoil rt cp nfields stag ttag fp members) :=
        outcome_unpackTsoil
      apply htsoil.mono
      · intro r hr
        exact ⟨hr.1, fun hthrows => hr.2 hthrows.2⟩
      · intro fault hfault
        exact ⟨hfault.1, rfl, hfault.2⟩
  | int32 => exact outcome_of_total (by decide) (outcome_unpackFields (.inr (hstore rfl)))
  | accumSec => exact outcome_of_total (by decide) outcome_unpackAccumSec
  | picTimeFields => exact outcome_of_total (by decide) outcome_unpackPicTimeFields
  | trh => exact outcome_of_total (by decide) outcome_unpackTRH
  | tp01 => exact outcome_of_total (by decide) outcome_unpackTP01
  | status => exact outcome_of_total (by decide) outcome_unpackStatus
  | power => exact outcome_of_total (by decide) outcome_unpackPower
  | rlw =>
      have hscaled : Outcome _ _ (unpackRlw rt cp nfields stag ttag fp members) :=
        outcome_unpackScaled
      exact outcome_of_total (by decide) hscaled
  | rlwKZ =>
      have hscaled : Outcome _ _ (unpackRlwKZ rt cp nfields stag ttag fp members) :=
        outcome_unpackScaled
      exact outcome_of_total (by decide) hscaled
  | nr01 =>
      have hscaled : Outcome _ _ (unpackNR01 rt cp nfields stag ttag fp members) :=
        outcome_unpackScaled
      exact outcome_of_total (by decide) hscaled
  | picTime => exact outcome_of_total (by decide) (outcome_unpackFields (.inl rfl))
  | uint16 => exact outcome_of_total (by decide) (outcome_unpackFields (.inl rfl))
  | int16 => exact outcome_of_total (by decide) (outcome_unpackFields (.inl rfl))
  | uint32 => exact outcome_of_total (by decide) (outcome_unpackFields (.inl rfl))
  | hundredthSec => exact outcome_of_total (by decide) (outcome_unpackFields (.inl rfl))
  | gsoil => exact outcome_of_total (by decide) (outcome_unpackFields (.inl rfl))
  | qsoil => exact outcome_of_total (by decide) (outcome_unpackFields (.inl rfl))
  | xbee => exact outcome_of_total (by decide) (outcome_unpackFields (.inl rfl))
  | rnet => exact outcome_of_total (by decide) (outcome_unpackFields (.inl rfl))
  | rsw => exact outcome_of_total (by decide) (outcome_unpackFields (.inl rfl))
  | cnr2 => exact outcome_of_total (by decide) (outcome_unpackFields (.inl rfl))
  | rsw2 => exact outcome_of_total (by decide) (outcome_unpackFields (.inl rfl))

theorem outcome_unpack10thSec {moteId : ℤ} {tdiff : ℤ → ℤ} :
    Outcome (fun r => Moves [4] cp stag fp members r.1 ∧ (fp = none → r.2 = tdiff)) (fun _ => False)
      (unpack10thSec rt cp nfields moteId stag ttag fp members tdiff) := by
  unfold unpack10thSec
  split
  · next hlt => exact ⟨⟨(skipFields_of_lt hlt).symm, isSome_fillFrom, fun _ => rfl⟩, fun _ => rfl⟩
  · next hge =>
      have hcp : cp.drop 4 = skipFields [4] cp := by
        rw [skipFields_of_le (Nat.not_lt.mp hge)]
        rfl
      cases fp with
      | none => exact ⟨⟨hcp, rfl, fun _ => rfl⟩, fun _ => rfl⟩
      | some data =>
          refine ⟨Moves.convert hcp (by simp), fun hnone => ?_⟩
          cases hnone

end Functions

/-! ## Calls -/

section Calls

variable {rt} {fn : UnpackFn} {cp : List UInt8} {nfields : ℕ} {moteId : ℤ} {stag : Option SampleTag}
  {ttag : ℤ} {fp : FloatPtr F} {members : Members F σ}

/-- What is expected of a call: that the function moves its pointers, and of the members the ones of
tagged samples only change with a tag and the time differences only by their function. -/
structure Called (fn : UnpackFn) (nfields : ℕ) (cp : List UInt8) (stag : Option SampleTag)
    (fp : FloatPtr F) (members : Members F σ) (r : List UInt8 × FloatPtr F × Members F σ) :
    Prop where
  cp_eq : r.1 = skipFields (fn.sizes nfields) cp
  isSome_eq : r.2.1.isSome = fp.isSome
  ids_eq : r.2.2.ids = members.ids
  tagged_eq : stag = none → r.2.2.tagged = members.tagged
  tdiff_eq : fn ≠ .tenthSec → r.2.2.tdiff = members.tdiff

/-- **What calls do**, but for the function that stores through null. -/
theorem outcome_call (hstore : fn.StoresThroughNull → fp.isSome = true) :
    Outcome (fun r => Called fn nfields cp stag fp members r ∧ ¬fn.Throws stag)
      (fun fault => fault = .badParameter ∧ fn.Throws stag)
      (fn.call rt cp nfields moteId stag ttag fp members) := by
  unfold UnpackFn.call
  split
  · next hfn =>
      subst hfn
      have htotal : Outcome _ (fun fault => fault = .badParameter ∧ UnpackFn.tenthSec.Throws stag)
          (unpack10thSec rt cp nfields moteId stag ttag fp members.tagged members.tdiff) :=
        outcome_unpack10thSec.mono (fun _ hr => hr) fun _ hfalse => hfalse.elim
      apply htotal.bind
      intro r hr
      exact ⟨⟨hr.1.cp_eq, hr.1.isSome_eq, rfl, hr.1.members_eq, fun hne => absurd rfl hne⟩,
        fun hthrows => by cases hthrows.1⟩
  · next hfn =>
      apply (outcome_plain hfn hstore).bind
      intro r hr
      exact ⟨⟨hr.1.cp_eq, hr.1.isSome_eq, rfl, hr.1.members_eq, fun _ => rfl⟩, hr.2⟩

/-- A function that throws, by the tag. -/
theorem call_of_throws (hstore : fn.StoresThroughNull → fp.isSome = true)
    (hthrows : fn.Throws stag) :
    fn.call rt cp nfields moteId stag ttag fp members = .error .badParameter := by
  have hcall : Outcome _ _ (fn.call rt cp nfields moteId stag ttag fp members) :=
    outcome_call hstore
  rcases hcall.cases with ⟨r, -, -, hgood⟩ | ⟨fault, hfault, rfl, -⟩
  · exact absurd hthrows hgood
  · exact hfault

/-- A function that does not throw. -/
theorem call_of_good (hstore : fn.StoresThroughNull → fp.isSome = true) (hgood : ¬fn.Throws stag) :
    ∃ r, fn.call rt cp nfields moteId stag ttag fp members = .ok r ∧
      Called fn nfields cp stag fp members r := by
  have hcall : Outcome _ _ (fn.call rt cp nfields moteId stag ttag fp members) :=
    outcome_call hstore
  rcases hcall.cases with ⟨r, hr, hcalled, -⟩ | ⟨fault, -, -, hthrows⟩
  · exact ⟨r, hr, hcalled⟩
  · exact absurd hthrows hgood

/-- A call of another function than `unpack10thSec`. -/
theorem call_eq_plain (hfn : fn ≠ .tenthSec) :
    fn.call rt cp nfields moteId stag ttag fp members =
      (fn.plain rt cp nfields stag ttag fp members.tagged).map fun r =>
        (r.cp, r.fp, { members with tagged := r.members }) := by
  unfold UnpackFn.call
  rw [if_neg hfn]
  cases fn.plain rt cp nfields stag ttag fp members.tagged <;> rfl

/-- `unpackInt32` without an output sample. -/
theorem call_int32_null (hpos : 0 < nfields) :
    UnpackFn.int32.call rt cp nfields moteId stag ttag none members = .error .nullStore := by
  rw [call_eq_plain (by decide)]
  unfold UnpackFn.plain unpackInt32 unpackFields
  rw [readFields_null hpos]
  rfl

/-- No call moves the cursor back. -/
theorem call_length_le {r : List UInt8 × FloatPtr F × Members F σ}
    (hr : fn.call rt cp nfields moteId stag ttag fp members = .ok r) : r.1.length ≤ cp.length := by
  by_cases hstore : fn.StoresThroughNull → fp.isSome = true
  · have hcall : Outcome _ _ (fn.call rt cp nfields moteId stag ttag fp members) :=
      outcome_call hstore
    rw [(hcall.of_ok hr).1.cp_eq]
    exact length_skipFields_le _ cp
  · obtain ⟨rfl, hnull⟩ := Classical.not_imp.mp hstore
    obtain rfl := Option.not_isSome_iff_eq_none.mp hnull
    cases nfields with
    | zero =>
        rw [call_eq_plain (by decide)] at hr
        cases hr
        exact le_rfl
    | succ nfields =>
        rw [call_int32_null (Nat.succ_pos nfields)] at hr
        cases hr

end Calls

end Nidas.Dynld.Wisard
