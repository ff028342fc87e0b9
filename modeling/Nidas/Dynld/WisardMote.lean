import Mathlib.Data.Finset.Insert
import Mathlib.Data.List.TakeDrop
import Nidas.Dynld.WisardLayout

/-!
# Wisard motes

`process` makes samples of a message: for each of its items the one that its unpack function fills,
with the id of the mote and of the sensor type.

## Strategy

`process` reads the header at the first byte of the message, also when `checkCRC` has found the
checksum right from a marker behind it only.  A message that begins with something else than a
marker has no header, so then nothing is made of it (`process_of_moved`), while the same message
without what is in front of the marker is read.
-/

namespace Nidas.Dynld.Wisard

open Lib

/-- A sample of the results, with its values. -/
structure OutSample (F : Type) where
  id : ℕ
  timeTag : ℤ
  data : List (Option F)

/-- The configuration of a `WisardMote`. -/
structure Config where
  sensorId : ℕ
  /-- `_processorSensor == this` -/
  isProcessor : Bool
  sampleTagsById : ℕ → Option SampleTag
  ignoredSensorTypes : Finset UInt8

/-- A raw sample. -/
structure RawSample where
  timeTag : ℤ
  data : List UInt8

/-- What has happened in a run over the items: the samples with their sensor types, the members, and
how it has ended, if not as usual. -/
structure Run (F σ : Type) where
  samples : List (UInt8 × OutSample F)
  members : Members F σ
  fault : Option Fault

variable {F σ : Type} (rt : Runtime F σ) (cfg : Config)

/-- `getId() + (header.moteId << 8) + sensorType` -/
def Config.sampleId (moteId : ℤ) (sensorType : UInt8) : ℕ :=
  ((cfg.sensorId + moteId * 256 + sensorType.toNat : ℤ) % 2 ^ 32).toNat

/-- The tag of the samples of a mote and a sensor type. -/
def Config.tag (moteId : ℤ) (sensorType : UInt8) : Option SampleTag :=
  cfg.sampleTagsById (cfg.sampleId moteId sensorType)

/-- The values of the output sample, if one is created. -/
def Config.newValues (moteId : ℤ) (sensorType : UInt8) (nfields : ℕ) : FloatPtr F :=
  match cfg.tag moteId sensorType with
  | some tag => some (List.replicate (max tag.lengths.length nfields) none)
  | none => if sensorType ∈ cfg.ignoredSensorTypes then none else some (List.replicate nfields none)

/-- The sample that is pushed out; its id has the 26 bits that `setId` keeps. -/
def Config.outSample (moteId : ℤ) (sensorType : UInt8) (ttag : ℤ) (data : List (Option F)) :
    UInt8 × OutSample F :=
  (sensorType, ⟨cfg.sampleId moteId sensorType % 2 ^ 26, ttag, data⟩)

/-- The loop of `process` over the items.  Each step takes a sensor type at least. -/
def unpackItems (moteId ttag : ℤ) : ℕ → List UInt8 → Members F σ → Run F σ
  | 0, _, members => ⟨[], members, none⟩
  | _ + 1, [], members => ⟨[], members, none⟩
  | fuel + 1, sensorType :: cp, members =>
      match unpackMap sensorType with
      | none => ⟨[], members, none⟩
      | some (fn, nfields) =>
          match fn.call rt cp nfields moteId (cfg.tag moteId sensorType) ttag
            (cfg.newValues moteId sensorType nfields) members with
          | .error fault => ⟨[], members, some fault⟩
          | .ok (cp, fp, members) =>
              let rest := unpackItems moteId ttag fuel cp members
              { rest with
                samples := (fp.map (cfg.outSample moteId sensorType ttag)).toList ++ rest.samples }

/-- The header of a message with a good end marker and checksum, and the data behind it. -/
def readMessage (msg : List UInt8) (ids : Identities) :
    Option (MessageHeader × List UInt8 × Identities) :=
  match checkEOM msg with
  | none => none
  | some body =>
      match checkCRC body with
      | none => none
      | some _ => readHead body.dropLast ids

/-- What `process` returns and leaves behind. -/
structure Processed (F σ : Type) where
  returned : Except Fault Bool
  samples : List (UInt8 × OutSample F)
  members : Members F σ

/-- `WisardMote::process` -/
def process (samp : RawSample) (members : Members F σ) : Processed F σ :=
  if cfg.isProcessor then
    match readMessage samp.data members.ids with
    | none => ⟨.ok false, [], members⟩
    | some (header, cp, ids) =>
        if header.messageType = 1 then
          let run := unpackItems rt cfg header.moteId samp.timeTag cp.length cp { members with ids }
          ⟨(match run.fault with | some fault => .error fault | none => .ok true), run.samples,
            run.members⟩
        else ⟨.ok false, [], { members with ids }⟩
  else ⟨.ok false, [], members⟩

/-- The loop ends with the data: more fuel than there are bytes changes nothing. -/
theorem unpackItems_congr (moteId ttag : ℤ) (fuel : ℕ) :
    ∀ (other : ℕ) (cp : List UInt8) (members : Members F σ),
      cp.length ≤ fuel → cp.length ≤ other →
        unpackItems rt cfg moteId ttag fuel cp members =
          unpackItems rt cfg moteId ttag other cp members := by
  induction fuel with
  | zero =>
      intro other cp members hfuel _
      rw [List.eq_nil_of_length_eq_zero (Nat.le_zero.mp hfuel)]
      cases other <;> rfl
  | succ fuel ih =>
      intro other cp members hfuel hother
      cases cp with
      | nil => cases other <;> rfl
      | cons sensorType cp =>
          cases other with
          | zero => cases hother
          | succ other =>
              unfold unpackItems
              cases hmap : unpackMap sensorType with
              | none => rfl
              | some entry =>
                  obtain ⟨fn, nfields⟩ := entry
                  dsimp only
                  cases hcall : fn.call rt cp nfields moteId (cfg.tag moteId sensorType) ttag
                    (cfg.newValues moteId sensorType nfields) members with
                  | error fault => rfl
                  | ok r =>
                      obtain ⟨left, fp, after⟩ := r
                      have hshort : left.length ≤ cp.length := call_length_le hcall
                      rw [List.length_cons] at hfuel hother
                      dsimp only
                      rw [ih other left after (by omega) (by omega)]

/-! ## Where the header is read -/

section Marker

variable {rt cfg} {samp : RawSample} {members : Members F σ} {body : List UInt8} {p : ℕ}

/-- What is in front of the end marker, in a message without its first bytes. -/
theorem checkEOM_drop {msg : List UInt8} (heom : checkEOM msg = some body) (hp : p < body.length) :
    checkEOM (msg.drop p) = some (body.drop p) := by
  unfold checkEOM at heom ⊢
  split at heom
  · cases heom
  · next hlength =>
      obtain ⟨ended, hended⟩ :
          ∃ ended, ended = if msg.getLast? = some 0 then msg.dropLast else msg := ⟨_, rfl⟩
      simp only [← hended] at heom
      split at heom
      · next hmarker =>
          have hbody : ended.take (ended.length - 3) = body := Option.some.inj heom
          have hlen : body.length = ended.length - 3 := by
            rw [← hbody, List.length_take]
            omega
          have hle : ended.length ≤ msg.length := by
            rw [hended]
            split
            · rw [List.length_dropLast]
              omega
            · exact le_rfl
          have hlast : (msg.drop p).getLast? = msg.getLast? := by
            rw [List.getLast?_drop, if_neg (by omega)]
          have hended' : (if (msg.drop p).getLast? = some 0 then (msg.drop p).dropLast
              else msg.drop p) = ended.drop p := by
            rw [hlast, hended]
            split
            · exact List.dropLast_drop_eq_drop_dropLast msg p
            · rfl
          have hshort : ¬(msg.drop p).length < 4 := by
            rw [List.length_drop]
            omega
          have hdrop : (ended.drop p).length - 3 = ended.length - 3 - p := by
            rw [List.length_drop]
            omega
          rw [if_neg hshort]
          simp only [hended', hdrop]
          rw [List.drop_drop, Nat.add_sub_cancel' (by omega), if_pos hmarker, ← hbody,
            List.drop_take]
      · cases heom

/-- Behind a marker that is not at the first byte, a header is looked for in vain. -/
theorem readHead_of_marker_behind (hfind : findID body = some p) (hpos : 0 < p)
    (ids : Identities) : readHead body.dropLast ids = none := by
  have hne : body.dropLast.take 2 ≠ [0x49, 0x44] := by
    intro hmarker
    have hbody : body.take 2 = [0x49, 0x44] := by
      have hlength : 2 ≤ body.length - 1 := by
        have := congrArg List.length hmarker
        rw [List.length_take, List.length_dropLast] at this
        simp only [List.length_cons, List.length_nil] at this
        omega
      rw [List.dropLast_eq_take, List.take_take, Nat.min_eq_left hlength] at hmarker
      exact hmarker
    rw [findID_eq_zero_iff.mpr hbody] at hfind
    cases hfind
    cases hpos
  unfold readHead
  rw [readMoteId_of_take_ne hne]

theorem process_eq_of_readMessage_none (hread : readMessage samp.data members.ids = none) :
    process rt cfg samp members = ⟨.ok false, [], members⟩ := by
  unfold process
  rw [hread]
  split <;> rfl

/-- Nothing is made of a message of which the checksum is right from a marker behind its first byte
only. -/
theorem process_of_moved (heom : checkEOM samp.data = some body) (hcrc : checkCRC body = some p)
    (hwrong : ¬ChecksumRight body) :
    process rt cfg samp members = ⟨.ok false, [], members⟩ := by
  apply process_eq_of_readMessage_none
  rcases checkCRC_eq_some_iff.mp hcrc with ⟨-, hright⟩ | ⟨hpos, -, hfind, -⟩
  · exact absurd hright hwrong
  · unfold readMessage
    rw [heom]
    simp only [hcrc]
    exact readHead_of_marker_behind hfind hpos members.ids

/-- Without what is in front of the place where the checksum is right, the header is read there. -/
theorem readMessage_drop {msg : List UInt8} (heom : checkEOM msg = some body)
    (hcrc : checkCRC body = some p) (ids : Identities) :
    readMessage (msg.drop p) ids = readHead (body.drop p).dropLast ids := by
  have hafter : ChecksumRight (body.drop p) := by
    rcases checkCRC_eq_some_iff.mp hcrc with ⟨rfl, hright⟩ | ⟨-, -, -, hright⟩
    · exact hright
    · exact hright
  have hlt : p < body.length := by
    have := hafter.1
    rw [List.length_drop] at this
    omega
  unfold readMessage
  rw [checkEOM_drop heom hlt]
  simp only [checkCRC_of_right hafter]

/-- Of these bytes comes neither a sample nor a change of the members: no header is there, or it is
not the one of a data message and has nothing new. -/
def GivesNothing (cp : List UInt8) (ids : Identities) : Prop :=
  ∀ header left ids', readHead cp ids = some (header, left, ids') →
    header.messageType ≠ 1 ∧ ids' = ids

/-- The outcome of a message of which nothing is made. -/
theorem process_eq_nothing_iff {cp : List UInt8}
    (hread : readMessage samp.data members.ids = readHead cp members.ids) :
    process rt cfg samp members = ⟨.ok false, [], members⟩ ↔
      cfg.isProcessor = false ∨ GivesNothing cp members.ids := by
  unfold process
  rw [hread]
  cases hprocessor : cfg.isProcessor with
  | false => simp
  | true =>
      rw [if_pos rfl]
      cases hhead : readHead cp members.ids with
      | none =>
          have hnothing : GivesNothing cp members.ids := by
            intro header left ids' hsome
            rw [hhead] at hsome
            cases hsome
          simp [hnothing]
      | some head =>
          obtain ⟨header, left, ids'⟩ := head
          dsimp only
          have hgives : GivesNothing cp members.ids ↔
              header.messageType ≠ 1 ∧ ids' = members.ids := by
            constructor
            · intro hnothing
              exact hnothing header left ids' hhead
            · rintro hhere header' left' ids'' hsome
              rw [hhead] at hsome
              cases hsome
              exact hhere
          rw [hgives]
          split
          · next htype =>
              constructor
              · intro heq
                have hreturned := congrArg Processed.returned heq
                dsimp only at hreturned
                split at hreturned <;> cases hreturned
              · rintro (hfalse | ⟨hne, -⟩)
                · cases hfalse
                · exact absurd htype hne
          · next htype =>
              constructor
              · intro heq
                have hmembers := congrArg (fun r => r.members.ids) heq
                exact .inr ⟨htype, hmembers⟩
              · rintro (hfalse | ⟨-, hids⟩)
                · cases hfalse
                · rw [hids]

/-- **What is expected of a message that `checkCRC` accepts**: the header is read from the bytes for
which the checksum is right, and the outcome is the same as without the bytes in front of them. -/
structure ReadWhereVerified (rt : Runtime F σ) (cfg : Config) (samp : RawSample)
    (members : Members F σ) (body : List UInt8) (p : ℕ) : Prop where
  position : body.dropLast = (body.drop p).dropLast
  outcome : process rt cfg samp members =
    process rt cfg { samp with data := samp.data.drop p } members

theorem position_iff (hcrc : checkCRC body = some p) :
    body.dropLast = (body.drop p).dropLast ↔ ChecksumRight body := by
  constructor
  · intro hposition
    rcases checkCRC_eq_some_iff.mp hcrc with ⟨-, hright⟩ | ⟨hpos, -, -, hafter⟩
    · exact hright
    · have hlength := congrArg List.length hposition
      have hlt := hafter.1
      rw [List.length_drop] at hlt
      rw [List.length_dropLast, List.length_dropLast, List.length_drop] at hlength
      omega
  · intro hright
    have hzero : some 0 = some p := (checkCRC_of_right hright).symm.trans hcrc
    cases hzero
    rfl

/-- The outcome is the same as without the bytes in front of the marker. -/
theorem outcome_iff (heom : checkEOM samp.data = some body) (hcrc : checkCRC body = some p) :
    process rt cfg samp members = process rt cfg { samp with data := samp.data.drop p } members ↔
      ChecksumRight body ∨ cfg.isProcessor = false ∨
        GivesNothing (body.drop p).dropLast members.ids := by
  have hread : readMessage (samp.data.drop p) members.ids =
      readHead (body.drop p).dropLast members.ids := readMessage_drop heom hcrc members.ids
  by_cases hright : ChecksumRight body
  · have hzero : some 0 = some p := (checkCRC_of_right hright).symm.trans hcrc
    cases hzero
    simp [hright]
  · rw [process_of_moved heom hcrc hright, or_iff_right hright, eq_comm]
    exact process_eq_nothing_iff hread

/-- **Where the header is read**: at the place for which the checksum was verified if and only if
the checksum of the message is right from its first byte on.  Otherwise the message and the one
without the bytes in front of the marker have the same outcome only where nothing is made of the
latter. -/
theorem readWhereVerified_iff (rt : Runtime F σ) (cfg : Config) (samp : RawSample)
    (members : Members F σ) (heom : checkEOM samp.data = some body)
    (hcrc : checkCRC body = some p) :
    (ReadWhereVerified rt cfg samp members body p ↔ ChecksumRight body) ∧
      (process rt cfg samp members =
          process rt cfg { samp with data := samp.data.drop p } members ↔
        ChecksumRight body ∨ cfg.isProcessor = false ∨
          GivesNothing (body.drop p).dropLast members.ids) := by
  refine ⟨?_, outcome_iff heom hcrc⟩
  constructor
  · intro hwhere
    exact (position_iff hcrc).mp hwhere.position
  · intro hright
    exact ⟨(position_iff hcrc).mpr hright, (outcome_iff heom hcrc).mpr (.inl hright)⟩

end Marker

/-! ## A message behind a stray byte -/

/-- Integers in the place of `float`s, without conversions. -/
def intRuntime : Runtime ℤ Unit where
  nan := -9999
  isNaN f := f = -9999
  times n _ := n
  mul f _ := f
  div f _ := f
  ratio n d := n / d
  slope f last _ := f - last
  convert _ _ _ _ f := (f, ())

/-- Nothing is configured or ignored. -/
def bareConfig : Config where
  sensorId := 0x8000
  isProcessor := true
  sampleTagsById _ := none
  ignoredSensorTypes := ∅

/-- As they are constructed. -/
def newMembers : Members ℤ Unit where
  ids := ⟨fun _ _ => 0, fun _ => 0⟩
  tdiff _ := 0
  tagged := ⟨fun _ _ => (-9999, 0), ()⟩

/-- `x`, and a message of mote 1 with a status in front of its end marker. -/
def strayBody : List UInt8 :=
  [0x78, 0x49, 0x44, 0x31, 0x3a, 0x01, 0x01, 0x07, 0x40, 0x05, 0x4d]

def straySample : RawSample := ⟨0, strayBody ++ eom⟩

theorem checkEOM_strayBody : checkEOM straySample.data = some strayBody := by decide

theorem checkCRC_strayBody : checkCRC strayBody = some 1 :=
  checkCRC_eq_some_iff.mpr (.inr ⟨by decide, by decide, by decide, by decide⟩)

theorem readWhereVerified_iff_stray :
    (ReadWhereVerified intRuntime bareConfig straySample newMembers strayBody 1 ↔
        ChecksumRight strayBody) ∧
      (process intRuntime bareConfig straySample newMembers =
          process intRuntime bareConfig { straySample with data := straySample.data.drop 1 }
            newMembers ↔
        ChecksumRight strayBody ∨ bareConfig.isProcessor = false ∨
          GivesNothing (strayBody.drop 1).dropLast newMembers.ids) :=
  readWhereVerified_iff intRuntime bareConfig straySample newMembers checkEOM_strayBody
    checkCRC_strayBody

/-- The message behind the stray byte has the right checksum, and nothing is made of it. -/
theorem not_readWhereVerified_stray :
    checkEOM straySample.data = some strayBody ∧ checkCRC strayBody = some 1 ∧
      ¬ReadWhereVerified intRuntime bareConfig straySample newMembers strayBody 1 := by
  refine ⟨checkEOM_strayBody, checkCRC_strayBody, fun hwhere => ?_⟩
  have hnothing := hwhere.outcome
  rw [process_of_moved checkEOM_strayBody checkCRC_strayBody (by decide)] at hnothing
  have hread := readMessage_drop checkEOM_strayBody checkCRC_strayBody newMembers.ids
  rcases (process_eq_nothing_iff hread).mp hnothing.symm with hprocessor | hgives
  · cases hprocessor
  · have htype : (readHead (strayBody.drop 1).dropLast newMembers.ids).map
        (fun head => head.1.messageType) = some 1 := by decide +kernel
    obtain ⟨⟨header, left, ids⟩, hhead, hone⟩ := Option.map_eq_some_iff.mp htype
    exact (hgives header left ids hhead).1 hone

end Nidas.Dynld.Wisard
