import Mathlib.Data.Rat.Init
import Nidas.Dynld.WisardMessage
import Nidas.Lib.Fields
import Nidas.Lib.Outcome
import Nidas.Util.Calendar

/-!
# The unpack functions of Wisard motes

The data of a message are items, each with its sensor type in front.  For each sensor type there is
an unpack function, which moves the pointer behind the item and, when it is given an output sample,
stores the values of the item there.

## Strategy

The readers store through a pointer to `float`s that is null without an output sample.  A store
through a null pointer is an error here (`Fault`), so that it can be told which functions never make
one.  What a function does to its pointer into the data is independent of all else: it goes behind
the fields that are there as a whole (`sizes`, `outcome_call`).

The arithmetic of `float`s and the conversions of variables are parameters.  A value of a sample
that has not been stored yet is `none`; the sample comes from a pool and may have anything there.
-/

namespace Nidas.Dynld.Wisard

open Lib Util

/-- The arithmetic of `float`s that unpacked values go through, and `Variable::convert` of one
value, with the state of the converters. -/
structure Runtime (F σ : Type) where
  nan : F
  isNaN : F → Bool
  /-- an integer times a `float` -/
  times : ℤ → ℚ → F
  mul : F → ℚ → F
  div : F → ℚ → F
  /-- an integer as a `float`, divided by an integer -/
  ratio : ℤ → ℤ → F
  /-- `(f - last) / double(usecs) * USECS_PER_SEC` -/
  slope : F → F → ℤ → F
  /-- of the sample with this id the variable with this index, at this time -/
  convert : σ → ℕ → ℕ → ℤ → F → F × σ

/-- What is used of a `SampleTag`: the lengths of its variables, and its parameter
`TsoilUnsigned16`, of which the value is missing when it is not boolean. -/
structure SampleTag where
  id : ℕ
  lengths : List ℕ
  tsoilUnsigned16 : Option (Option Bool)
  deriving DecidableEq, Repr

/-- The members that are only used where a sample has a tag: `_tsoilData`, with the last
temperatures and their times, and what the variable converters know. -/
structure TagMembers (F σ : Type) where
  tsoilData : ℕ → ℕ → F × ℤ
  converters : σ

/-- The ways in which unpacking ends early. -/
inductive Fault where
  | nullStore
  /-- `InvalidParameterException` -/
  | badParameter
  deriving DecidableEq, Repr

/-- A pointer to the values of the output sample, or null. -/
abbrev FloatPtr (F : Type) := Option (List (Option F))

/-- What an unpack function returns and leaves behind. -/
structure Unpacked (F σ : Type) where
  cp : List UInt8
  fp : FloatPtr F
  members : TagMembers F σ

variable {F σ : Type} (rt : Runtime F σ)

/-! ## Readers -/

/-- The integers that a reader reads. -/
structure IntFormat where
  size : ℕ
  value : ℕ → ℤ
  /-- of a missing value -/
  missing : ℤ

def uint16Format : IntFormat := ⟨2, fun bits => bits, 0x8000⟩

def int16Format : IntFormat := ⟨2, toSigned 16, -0x8000⟩

def uint32Format : IntFormat := ⟨4, fun bits => bits, 0x80000000⟩

def int32Format : IntFormat := ⟨4, toSigned 32, -0x80000000⟩

/-- The value of a field. -/
def fieldValue (fmt : IntFormat) (scale : ℚ) (field : List UInt8) : F :=
  let val := fmt.value (ofLeBytes field)
  if val = fmt.missing then rt.nan else rt.times val scale

/-- `fp[k] = value`, behind `if (fp)` when it is guarded. -/
def store (guarded : Bool) (fp : FloatPtr F) (k : ℕ) (value : F) : Except Fault (FloatPtr F) :=
  match fp with
  | some data => .ok (some (data.set k (some value)))
  | none => if guarded then .ok none else .error .nullStore

/-- The fields that are cut off: NaN in `count` places from `k` on. -/
def fillFields (guarded : Bool) : ℕ → ℕ → FloatPtr F → Except Fault (FloatPtr F)
  | 0, _, fp => .ok fp
  | count + 1, k, fp => do
      let fp ← store guarded fp k rt.nan
      fillFields guarded count (k + 1) fp

/-- The loop that the readers share: `nfields` fields, stored from `k` on. -/
def readFields (fmt : IntFormat) (guarded : Bool) (scale : ℚ) :
    ℕ → ℕ → List UInt8 → FloatPtr F → Except Fault (List UInt8 × FloatPtr F)
  | 0, _, cp, fp => .ok (cp, fp)
  | nfields + 1, k, cp, fp =>
      if cp.length < fmt.size then do
        let fp ← fillFields rt guarded (nfields + 1) k fp
        return (cp, fp)
      else do
        let fp ← store guarded fp k (fieldValue rt fmt scale (cp.take fmt.size))
        readFields fmt guarded scale nfields (k + 1) (cp.drop fmt.size) fp

/-- `readUint16` -/
def readUint16 := readFields rt uint16Format true

/-- `readInt16` -/
def readInt16 := readFields rt int16Format true

/-- `readUint32` -/
def readUint32 := readFields rt uint32Format true

/-- `readInt32`, which does not test its pointer. -/
def readInt32 := readFields rt int32Format false

/-! ## Conversions -/

/-- Convert the values of one variable, as many as there are. -/
def convertVariable (id index : ℕ) (ttag : ℤ) : List (Option F) → σ → List (Option F) × σ
  | [], converters => ([], converters)
  | none :: data, converters =>
      let rest := convertVariable id index ttag data converters
      (none :: rest.1, rest.2)
  | some value :: data, converters =>
      let converted := rt.convert converters id index ttag value
      let rest := convertVariable id index ttag data converted.2
      (some converted.1 :: rest.1, rest.2)

/-- `applyConversions`: the values with those of the variables from an index on converted. -/
def applyConversions (id : ℕ) (ttag : ℤ) :
    ℕ → List ℕ → List (Option F) → σ → List (Option F) × σ
  | _, [], data, converters => (data, converters)
  | index, length :: lengths, data, converters =>
      let converted := convertVariable rt id index ttag (data.take length) converters
      let rest := applyConversions id ttag (index + 1) lengths (data.drop length) converted.2
      (converted.1 ++ rest.1, rest.2)

/-- `convert`, of which nothing is done without a tag or without a sample -/
def convert (stag : Option SampleTag) (ttag : ℤ) (fp : FloatPtr F) (members : TagMembers F σ) :
    FloatPtr F × TagMembers F σ :=
  match stag, fp with
  | some tag, some data =>
      let converted := applyConversions rt tag.id ttag 0 tag.lengths data members.converters
      (some converted.1, { members with converters := converted.2 })
  | _, _ => (fp, members)

/-- `if (fp) for (n = nfields; n < osamp->getDataLength(); n++) fp[n] = floatNAN` -/
def fillFrom (nfields : ℕ) (fp : FloatPtr F) : FloatPtr F :=
  fp.map fun data => data.take nfields ++ List.replicate (data.length - nfields) (some rt.nan)

/-- `if (fp) fp[k] = value` -/
def setValue (k : ℕ) (value : F) (fp : FloatPtr F) : FloatPtr F :=
  fp.map fun data => data.set k (some value)

/-- `isnan(fp[k])` -/
def isNaNAt (data : List (Option F)) (k : ℕ) : Bool := data[k]?.join.elim true rt.isNaN

/-! ## Unpack functions

Their arguments: what is left of the data, the number of fields, the tag, the time tag and the
values of the output sample, and the members. -/

/-- The body of most unpack functions, with the reader and the scale of each. -/
def unpackFields (fmt : IntFormat) (guarded : Bool) (scale : ℚ) (cp : List UInt8) (nfields : ℕ)
    (stag : Option SampleTag) (ttag : ℤ) (fp : FloatPtr F) (members : TagMembers F σ) :
    Except Fault (Unpacked F σ) := do
  let read ← readFields rt fmt guarded scale nfields 0 cp fp
  let converted := convert rt stag ttag (fillFrom rt nfields read.2) members
  return ⟨read.1, converted.1, converted.2⟩

/-- `unpackPicTime`, in tenths of seconds -/
def unpackPicTime := unpackFields rt uint16Format true (1 / 10)

def unpackUint16 := unpackFields rt uint16Format true 1

def unpackInt16 := unpackFields rt int16Format true 1

def unpackUint32 := unpackFields rt uint32Format true 1

/-- `unpackInt32`, the only one that calls `readInt32` -/
def unpackInt32 := unpackFields rt int32Format false 1

def unpack100thSec := unpackFields rt uint32Format true (1 / 100)

def unpackGsoil := unpackFields rt int16Format true (1 / 10)

def unpackQsoil := unpackFields rt int16Format true (1 / 100)

def unpackXbee := unpackFields rt uint16Format true 1

def unpackRnet := unpackFields rt int16Format true (1 / 10)

def unpackRsw := unpackFields rt int16Format true (1 / 10)

def unpackCNR2 := unpackFields rt int16Format true (1 / 10)

def unpackRsw2 := unpackFields rt int16Format true (1 / 10)

/-- The difference of a time tag and accumulated seconds of its year.  The motes may be one day
ahead. -/
def accumDiff (ttag : ℤ) (val : ℕ) : ℤ :=
  let diff := ttag - (yearStart ttag + val * usecsPerSec)
  if |diff + usecsPerDay| < 60 * usecsPerSec then diff + usecsPerDay else diff

def unpackAccumSec (cp : List UInt8) (nfields : ℕ) (stag : Option SampleTag) (ttag : ℤ)
    (fp : FloatPtr F) (members : TagMembers F σ) : Except Fault (Unpacked F σ) :=
  let fp := setValue 0 rt.nan fp
  let read : List UInt8 × FloatPtr F :=
    if cp.length < 4 then (cp, fp)
    else
      let val := ofLeBytes (cp.take 4)
      (cp.drop 4,
        if val ≠ 0x80000000 ∧ val ≠ 0 then
          setValue 0 (rt.ratio (accumDiff ttag val) usecsPerSec) fp
        else fp)
  let converted := convert rt stag ttag (fillFrom rt nfields read.2) members
  .ok ⟨read.1, converted.1, converted.2⟩

/-- `MSECS_PER_DAY` -/
def msecsPerDay : ℤ := 86400000

/-- A difference of times of day, moved by a day when it is more than half a day. -/
def withinHalfDay (diff : ℤ) : ℤ :=
  if diff < -(msecsPerDay / 2) then diff + msecsPerDay
  else if msecsPerDay / 2 < diff then diff - msecsPerDay
  else diff

/-- `unpack10thSec`, which also keeps the first difference of each mote in `_tdiffByMoteId`. -/
def unpack10thSec (cp : List UInt8) (nfields : ℕ) (moteId : ℤ) (stag : Option SampleTag) (ttag : ℤ)
    (fp : FloatPtr F) (members : TagMembers F σ) (tdiff : ℤ → ℤ) :
    Except Fault (Unpacked F σ × (ℤ → ℤ)) :=
  if cp.length < 4 then .ok (⟨cp, fillFrom rt 0 fp, members⟩, tdiff)
  else
    let val := ofLeBytes (cp.take 4) % (86400 * 10) * 100
    match fp with
    | none => .ok (⟨cp.drop 4, none, members⟩, tdiff)
    | some data =>
        let mSOfDay := (ttag.tdiv 1000).tmod msecsPerDay
        let diff := withinHalfDay (mSOfDay - val)
        let tdiff := if tdiff moteId = 0 then Function.update tdiff moteId diff else tdiff
        let values := setValue 1 (rt.ratio (withinHalfDay (diff - tdiff moteId)) 1000)
          (setValue 0 (rt.ratio diff 1000) (some data))
        let converted := convert rt stag ttag (fillFrom rt nfields values) members
        .ok (⟨cp.drop 4, converted.1, converted.2⟩, tdiff)

/-- The value of a byte. -/
def byteValue (byte : UInt8) : F := if byte = 0x80 then rt.nan else rt.times byte.toNat 1

def unpackPicTimeFields (cp : List UInt8) (nfields : ℕ) (stag : Option SampleTag) (ttag : ℤ)
    (fp : FloatPtr F) (members : TagMembers F σ) : Except Fault (Unpacked F σ) :=
  let fp := fillFrom rt 0 fp
  match cp with
  | low :: high :: cp =>
      let fp := setValue 0 (fieldValue rt uint16Format 1 [low, high]) fp
      match cp with
      | hh :: cp =>
          let fp := setValue 1 (byteValue rt hh) fp
          match cp with
          | mm :: cp =>
              let fp := setValue 2 (byteValue rt mm) fp
              match cp with
              | ss :: cp =>
                  let fp := fillFrom rt nfields (setValue 3 (byteValue rt ss) fp)
                  let converted := convert rt stag ttag fp members
                  .ok ⟨cp, converted.1, converted.2⟩
              | [] => .ok ⟨[], fp, members⟩
          | [] => .ok ⟨[], fp, members⟩
      | [] => .ok ⟨[], fp, members⟩
  | cp => .ok ⟨cp, fp, members⟩

/-- The values of a TRH: the conversions go to an array of three.  The fan current stays as it is
when it has been filtered, and then the others are not valid. -/
def screenTRH (data results : List (Option F)) : List (Option F) :=
  if isNaNAt rt results 2 then (data.set 0 (some rt.nan)).set 1 (some rt.nan)
  else results ++ data.drop 3

def unpackTRH (cp : List UInt8) (nfields : ℕ) (stag : Option SampleTag) (ttag : ℤ)
    (fp : FloatPtr F) (members : TagMembers F σ) : Except Fault (Unpacked F σ) := do
  let read ← readInt16 rt (1 / 100) nfields 0 cp fp
  let fp := fillFrom rt nfields read.2
  match stag, fp with
  | some tag, some data =>
      let converted := applyConversions rt tag.id ttag 0 tag.lengths data members.converters
      let results := (converted.1.take tag.lengths.sum ++ List.replicate 3 none).take 3
      return ⟨read.1, some (screenTRH rt data results),
        { members with converters := converted.2 }⟩
  | _, _ => return ⟨read.1, fp, members⟩

/-- `NTSOILS` -/
def ntsoils : ℕ := 4

/-- The soil temperatures from an index on, of which each is converted, and their derivatives. -/
def convertTsoil (tag : SampleTag) (ttag : ℤ) :
    ℕ → ℕ → List (Option F) → TagMembers F σ → List (Option F) × TagMembers F σ
  | 0, _, data, members => (data, members)
  | count + 1, it, data, members =>
      let slen := tag.lengths.length
      let id := slen / 2 + it
      let temp := convertVariable rt tag.id it ttag (data.drop it |>.take 1) members.converters
      let data := if it < slen then data.take it ++ temp.1 ++ data.drop (it + 1) else data
      let members := if it < slen then { members with converters := temp.2 } else members
      if id < data.length then
        if isNaNAt rt data it then
          convertTsoil tag ttag count (it + 1) (data.set id (some rt.nan)) members
        else
          let f := data[it]?.join.getD rt.nan
          let last := members.tsoilData tag.id it
          let fd := rt.slope f last.1 (ttag - last.2)
          let members := { members with
            tsoilData := Function.update members.tsoilData tag.id
              (Function.update (members.tsoilData tag.id) it (f, ttag)) }
          let converted := if id < slen then rt.convert members.converters tag.id id ttag fd
            else (fd, members.converters)
          convertTsoil tag ttag count (it + 1) (data.set id (some converted.1))
            { members with converters := converted.2 }
      else convertTsoil tag ttag count (it + 1) data members

/-- The values of a Tsoil item are taken as unsigned ones, by the parameter of the tag. -/
def tsoilIsUint16 (stag : Option SampleTag) : Except Fault Bool :=
  match stag.bind SampleTag.tsoilUnsigned16 with
  | none => .ok false
  | some none => .error .badParameter
  | some (some unsigned) => .ok unsigned

def unpackTsoil (cp : List UInt8) (_nfields : ℕ) (stag : Option SampleTag) (ttag : ℤ)
    (fp : FloatPtr F) (members : TagMembers F σ) : Except Fault (Unpacked F σ) := do
  let unsigned ← tsoilIsUint16 stag
  let reader := if unsigned then readUint16 rt else readInt16 rt
  let read ← reader (1 / 100) ntsoils 0 cp fp
  let fp := fillFrom rt ntsoils read.2
  match stag, fp with
  | some tag, some data =>
      let converted := convertTsoil rt tag ttag (tag.lengths.length / 2) 0 data members
      return ⟨read.1, some converted.1, converted.2⟩
  | _, _ => return ⟨read.1, fp, members⟩

/-- `fp[k] /= d` -/
def divideAt (k : ℕ) (d : ℚ) (data : List (Option F)) : List (Option F) :=
  data.modify k fun value => value.map fun f => rt.div f d

def unpackTP01 (cp : List UInt8) (nfields : ℕ) (stag : Option SampleTag) (ttag : ℤ)
    (fp : FloatPtr F) (members : TagMembers F σ) : Except Fault (Unpacked F σ) := do
  let read ← readUint16 rt 1 2 0 cp fp
  let read ← readInt16 rt 1 1 2 read.1 read.2
  let read ← readUint16 rt 1 2 3 read.1 read.2
  let fp := read.2.map fun data =>
    divideAt rt 4 1000 (divideAt rt 3 100 (divideAt rt 0 10000 data))
  let converted := convert rt stag ttag (fillFrom rt nfields fp) members
  let fp := converted.1.map fun data =>
    if isNaNAt rt data 0 || isNaNAt rt data 1 || isNaNAt rt data 2 then data.set 4 (some rt.nan)
    else data
  return ⟨read.1, fp, converted.2⟩

def unpackStatus (cp : List UInt8) (nfields : ℕ) (stag : Option SampleTag) (ttag : ℤ)
    (fp : FloatPtr F) (members : TagMembers F σ) : Except Fault (Unpacked F σ) :=
  match cp with
  | [] => .ok ⟨[], fp, members⟩
  | val :: cp =>
      let fp := fillFrom rt nfields (setValue 0 (byteValue rt val) fp)
      let converted := convert rt stag ttag fp members
      .ok ⟨cp, converted.1, converted.2⟩

def unpackPower (cp : List UInt8) (nfields : ℕ) (stag : Option SampleTag) (ttag : ℤ)
    (fp : FloatPtr F) (members : TagMembers F σ) : Except Fault (Unpacked F σ) := do
  let read ← readInt16 rt (1 / 1000) 3 0 cp fp
  let read ← readInt16 rt (1 / 100) 1 3 read.1 read.2
  let read ← readInt16 rt 1 (nfields - 4) 4 read.1 read.2
  let converted := convert rt stag ttag (fillFrom rt nfields read.2) members
  return ⟨read.1, converted.1, converted.2⟩

/-- What is done to the values between `readInt16` and `convert`. -/
def unpackScaled (scaled : ℕ → List (Option F) → List (Option F)) (cp : List UInt8) (nfields : ℕ)
    (stag : Option SampleTag) (ttag : ℤ) (fp : FloatPtr F) (members : TagMembers F σ) :
    Except Fault (Unpacked F σ) := do
  let read ← readInt16 rt 1 nfields 0 cp fp
  let fp := fillFrom rt nfields (read.2.map (scaled nfields))
  let converted := convert rt stag ttag fp members
  return ⟨read.1, converted.1, converted.2⟩

/-- `unpackRlw`: the thermopile, and temperatures of the case and the domes -/
def unpackRlw := unpackScaled rt fun nfields data =>
  data.mapIdx fun n value =>
    if n = 0 then value.map fun f => rt.div f 10
    else if n < nfields then value.map fun f => rt.div f 100
    else value

/-- `unpackRlwKZ`: the thermopile, and the temperature of the case -/
def unpackRlwKZ := unpackScaled rt fun _ data => divideAt rt 1 100 (divideAt rt 0 10 data)

/-- `unpackNR01`: four radiations, a case temperature, the wetness, and temperatures -/
def unpackNR01 := unpackScaled rt fun nfields data =>
  data.mapIdx fun n value =>
    if nfields ≤ n then value
    else if n < 4 then value.map fun f => rt.mul f (1 / 10)
    else if n = 5 then value.map fun f => rt.mul f (1 / 1000)
    else value.map fun f => rt.mul f (1 / 100)

end Nidas.Dynld.Wisard
