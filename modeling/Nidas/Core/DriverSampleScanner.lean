import Nidas.Lib.LittleEndian
import Nidas.Lib.Transducer
import Nidas.Core.Sample

/-!
# The driver sample scanner

A device driver hands on samples that have a header already: a 32 bit time tag and
a 32 bit length, then the data.  `DriverSampleScanner` (`SampleScanner.cc`) takes
them from a buffer that `readBuffer` fills, and `DSMSensor::readSamples` calls
`nextSample` until it returns null.

The bytes of `_header` are `header`, those of the sample under construction are the
`data` of `osamp`; `_outSampRead` is the length of either, and `_outSampToRead` is
counted down as in the source.  `SampleClock::addSampleDate` is a parameter: for
each call it gives the completed time tag, or none for a status other than `OK`.
Statistics other than the number of bad time tags are left out.
-/

namespace Nidas.Core

open Lib

/-- `SIZEOF_DSM_SAMPLE_HEADER` -/
def sizeofDsmSampleHeader : ℕ := 8

/-- `struct dsm_sample` -/
structure DsmSample where
  timetag : ℤ
  data : List UInt8
  timetag_ge : -2 ^ 31 ≤ timetag
  timetag_lt : timetag < 2 ^ 31
  length_lt : data.length < 2 ^ 32

namespace DsmSample

/-- The header in memory. -/
def header (sample : DsmSample) : List UInt8 :=
  leBytes 4 (ofSigned 32 sample.timetag) ++ leBytes 4 sample.data.length

/-- The bytes that the driver writes. -/
def encode (sample : DsmSample) : List UInt8 := sample.header ++ sample.data

@[simp] theorem length_header (sample : DsmSample) :
    sample.header.length = sizeofDsmSampleHeader := by
  rw [header, List.length_append, length_leBytes, length_leBytes]
  rfl

theorem length_encode (sample : DsmSample) :
    sample.encode.length = sizeofDsmSampleHeader + sample.data.length := by
  rw [encode, List.length_append, length_header]

/-- `_header.timetag` as it is read back. -/
theorem toSigned_header (sample : DsmSample) :
    toSigned 32 (ofLeBytes (sample.header.take 4)) = sample.timetag := by
  rw [header, List.take_left' (length_leBytes _ _),
    ofLeBytes_leBytes_of_lt (ofSigned_lt 32 sample.timetag)]
  exact toSigned_ofSigned (by decide) sample.timetag_ge sample.timetag_lt

/-- `_header.length` as it is read back. -/
theorem ofLeBytes_header (sample : DsmSample) :
    ofLeBytes (sample.header.drop 4) = sample.data.length := by
  rw [header, List.drop_left' (length_leBytes _ _), ofLeBytes_leBytes_of_lt sample.length_lt]

end DsmSample

/-! ## The scanner -/

/-- The sensor and the clock. -/
structure DriverEnv where
  sensorId : ℕ
  driverTimeTagUsecs : ℤ
  addSampleDate : ℕ → ℤ → Option ℤ

namespace DriverEnv

variable (env : DriverEnv)

/-- The time tag that is handed to the clock. -/
def timeTag (sample : DsmSample) : ℤ := sample.timetag * env.driverTimeTagUsecs

/-- The sample that is handed on, if the clock accepts its time tag in the given
call. -/
def addDate (call : ℕ) (sample : DsmSample) : Option Sample :=
  (env.addSampleDate call (env.timeTag sample)).map fun timeTag =>
    ⟨timeTag, .char, env.sensorId, sample.data⟩

/-- The samples whose time tags the clock accepts, from the given call on. -/
def accepted : ℕ → List DsmSample → List Sample
  | _, [] => []
  | call, sample :: rest => (env.addDate call sample).toList ++ accepted (call + 1) rest

end DriverEnv

/-- `_osamp` -/
structure DriverOutSample where
  timeTag : ℤ
  data : List UInt8
  deriving DecidableEq, Repr

/-- The members of a `DriverSampleScanner`. -/
structure DriverScanState where
  bytes : List UInt8 := []
  header : List UInt8 := []
  osamp : Option DriverOutSample := none
  outSampToRead : ℕ := sizeofDsmSampleHeader
  badTimeTags : ℕ := 0
  clockCalls : ℕ := 0
  deriving DecidableEq, Repr

namespace DriverScanState

variable (env : DriverEnv)

/-- The second part of `DriverSampleScanner::nextSample`: the data. -/
def readData (osamp : DriverOutSample) (state : DriverScanState) :
    Option Sample × DriverScanState :=
  let len := min state.outSampToRead state.bytes.length
  let osamp := { osamp with data := osamp.data ++ state.bytes.take len }
  let state :=
    { state with
      bytes := state.bytes.drop len
      outSampToRead := state.outSampToRead - len }
  if state.outSampToRead = 0 then
    -- done with sample
    let after :=
      { state with
        osamp := none
        header := []
        outSampToRead := sizeofDsmSampleHeader
        clockCalls := state.clockCalls + 1 }
    match env.addSampleDate state.clockCalls osamp.timeTag with
    | some timeTag => (some ⟨timeTag, .char, env.sensorId, osamp.data⟩, after)
    | none => (none, { after with badTimeTags := after.badTimeTags + 1 })
  else (none, { state with osamp := some osamp })

/-- `DriverSampleScanner::nextSample` -/
def nextSample (state : DriverScanState) : Option Sample × DriverScanState :=
  match state.osamp with
  | some osamp => readData env osamp state
  | none =>
      -- read the header of the next sample
      let len := min state.outSampToRead state.bytes.length
      let state :=
        { state with
          header := state.header ++ state.bytes.take len
          bytes := state.bytes.drop len
          outSampToRead := state.outSampToRead - len }
      if state.outSampToRead ≠ 0 then (none, state)
      else
        let timetag := toSigned 32 (ofLeBytes (state.header.take 4))
        readData env ⟨timetag * env.driverTimeTagUsecs, []⟩
          { state with outSampToRead := ofLeBytes (state.header.drop 4) }

/-- `SampleScanner::readBuffer`, with what the sensor returns. -/
def readBuffer (bufsize : ℕ) (data : List UInt8) (state : DriverScanState) : DriverScanState :=
  { state with bytes := state.bytes ++ data.take (bufsize - state.bytes.length) }

/-- Call `nextSample` until it returns null. -/
def drain : ℕ → DriverScanState → DriverScanState × List Sample
  | 0, state => (state, [])
  | fuel + 1, state =>
      match nextSample env state with
      | (none, state) => (state, [])
      | (some samp, state) =>
          let after := drain fuel state
          (after.1, samp :: after.2)

/-- `DSMSensor::readSamples`.  Each sample uses up at least one byte. -/
def readSamples (bufsize : ℕ) (state : DriverScanState) (data : List UInt8) :
    DriverScanState × List Sample :=
  let state := readBuffer bufsize data state
  drain env (state.bytes.length + 1) state

/-- All reads of a new scanner. -/
def readAll (bufsize : ℕ) (reads : List (List UInt8)) : DriverScanState × List Sample :=
  readBlocks (readSamples env bufsize) {} reads

/-- The sensor never returns more than what it is asked for. -/
def Fits (bufsize : ℕ) : DriverScanState → List (List UInt8) → Prop
  | _, [] => True
  | state, data :: rest =>
      data.length ≤ bufsize - state.bytes.length ∧
        Fits bufsize (readSamples env bufsize state data).1 rest

/-- The bytes of the sample that is being read. -/
def pending (state : DriverScanState) : List UInt8 :=
  match state.osamp with
  | none => state.header
  | some osamp => state.header ++ osamp.data

/-- The buffer holds the rest of a complete sample. -/
def HoldsSample (state : DriverScanState) : Prop :=
  ∃ (sample : DsmSample) (more : List UInt8), state.pending ++ state.bytes = sample.encode ++ more

/-! ## One call -/

variable {env} {state : DriverScanState}

/-- The bytes of a list of driver samples. -/
def encodeAll (samples : List DsmSample) : List UInt8 := samples.flatMap DsmSample.encode

@[simp] theorem encodeAll_cons (sample : DsmSample) (rest : List DsmSample) :
    encodeAll (sample :: rest) = sample.encode ++ encodeAll rest := List.flatMap_cons

/-- Nothing has been read of the next sample. -/
structure Fresh (state : DriverScanState) : Prop where
  osamp : state.osamp = none
  header : state.header = []
  toRead : state.outSampToRead = sizeofDsmSampleHeader

/-- The first `count` bytes of a sample have been read. -/
inductive Partly (env : DriverEnv) (sample : DsmSample) (count : ℕ) (state : DriverScanState) : Prop
    where
  | header (hlt : count < sizeofDsmSampleHeader) (hosamp : state.osamp = none)
      (hheader : state.header = sample.header.take count)
      (htoRead : state.outSampToRead = sizeofDsmSampleHeader - count)
  | data (hge : sizeofDsmSampleHeader ≤ count) (hlt : count < sample.encode.length)
      (hosamp : state.osamp = some ⟨env.timeTag sample,
        sample.data.take (count - sizeofDsmSampleHeader)⟩)
      (hheader : state.header = sample.header)
      (htoRead : state.outSampToRead = sample.encode.length - count)

theorem Fresh.partly (hfresh : Fresh state) (sample : DsmSample) : Partly env sample 0 state :=
  .header (by decide) hfresh.osamp (by rw [hfresh.header]; rfl) hfresh.toRead

theorem Partly.count_lt {sample : DsmSample} {count : ℕ} (hpartly : Partly env sample count state) :
    count < sample.encode.length := by
  have hlength := sample.length_encode
  cases hpartly with
  | header hlt => omega
  | data _ hlt => exact hlt

/-- What a call does to a sample of which `count` bytes have been read. -/
inductive Called (env : DriverEnv) (sample : DsmSample) (count : ℕ) (state : DriverScanState) :
    Option Sample × DriverScanState → Prop where
  | more {after : DriverScanState} (hlt : count + state.bytes.length < sample.encode.length)
      (hpartly : Partly env sample (count + state.bytes.length) after) (hbytes : after.bytes = [])
      (hcalls : after.clockCalls = state.clockCalls) : Called env sample count state (none, after)
  | done {after : DriverScanState} (hle : sample.encode.length ≤ count + state.bytes.length)
      (hfresh : Fresh after)
      (hbytes : after.bytes = state.bytes.drop (sample.encode.length - count))
      (hcalls : after.clockCalls = state.clockCalls + 1) :
      Called env sample count state (env.addDate state.clockCalls sample, after)

/-- The data part of a call. -/
theorem readData_called {sample : DsmSample} {count : ℕ} {left : List UInt8}
    (hge : sizeofDsmSampleHeader ≤ count) (hle : count ≤ sample.encode.length)
    (hheader : state.header = sample.header)
    (htoRead : state.outSampToRead = sample.encode.length - count)
    (hagrees : ∃ later, state.bytes ++ later = sample.encode.drop count ++ left) :
    Called env sample count state
      (readData env ⟨env.timeTag sample, sample.data.take (count - sizeofDsmSampleHeader)⟩ state) := by
  have hlength := sample.length_encode
  have hdrop : sample.encode.drop count = sample.data.drop (count - sizeofDsmSampleHeader) := by
    rw [DsmSample.encode, List.drop_append, List.drop_of_length_le (by
      rw [DsmSample.length_header]; exact hge), List.nil_append, DsmSample.length_header]
  obtain ⟨later, hagrees⟩ := hagrees
  rw [hdrop] at hagrees
  unfold readData
  dsimp only
  rw [htoRead]
  rcases Nat.lt_or_ge (count + state.bytes.length) sample.encode.length with hlt | hcomplete
  · -- all bytes of the buffer are data of this sample
    have hmin : min (sample.encode.length - count) state.bytes.length = state.bytes.length := by omega
    have htake : state.bytes =
        (sample.data.drop (count - sizeofDsmSampleHeader)).take state.bytes.length := by
      have hprefix := congrArg (List.take state.bytes.length) hagrees
      rwa [List.take_left' rfl, List.take_append_of_le_length (by
        rw [List.length_drop]; omega)] at hprefix
    rw [hmin, if_neg (by omega), List.take_length, List.drop_length]
    refine .more hlt (.data (by omega) hlt ?_ hheader (by dsimp only; omega)) rfl rfl
    dsimp only
    rw [Nat.sub_add_comm hge, List.take_add]
    congr 3
  · have hmin : min (sample.encode.length - count) state.bytes.length =
        sample.encode.length - count := by omega
    have htake : state.bytes.take (sample.encode.length - count) =
        sample.data.drop (count - sizeofDsmSampleHeader) := by
      have hprefix := congrArg (List.take (sample.encode.length - count)) hagrees
      rwa [List.take_append_of_le_length (by omega), List.take_left' (by
        rw [List.length_drop]; omega)] at hprefix
    rw [hmin, if_pos (Nat.sub_self _), htake, List.take_append_drop]
    have hdate : env.addDate state.clockCalls sample =
        (env.addSampleDate state.clockCalls (env.timeTag sample)).map fun timeTag =>
          ⟨timeTag, .char, env.sensorId, sample.data⟩ := rfl
    cases hstatus : env.addSampleDate state.clockCalls (env.timeTag sample) with
    | none =>
        rw [hstatus, Option.map_none] at hdate
        dsimp only
        rw [← hdate]
        exact .done hcomplete ⟨rfl, rfl, rfl⟩ rfl rfl
    | some timeTag =>
        rw [hstatus, Option.map_some] at hdate
        dsimp only
        rw [← hdate]
        exact .done hcomplete ⟨rfl, rfl, rfl⟩ rfl rfl

/-- **One call of `nextSample`.** -/
theorem nextSample_called {sample : DsmSample} {count : ℕ} {left : List UInt8}
    (hpartly : Partly env sample count state)
    (hagrees : ∃ later, state.bytes ++ later = sample.encode.drop count ++ left) :
    Called env sample count state (nextSample env state) := by
  have hlength := sample.length_encode
  cases hpartly with
  | data hge hlt hosamp hheader htoRead =>
      rw [nextSample, hosamp]
      exact readData_called hge (Nat.le_of_lt hlt) hheader htoRead hagrees
  | header hlt hosamp hheader htoRead =>
      obtain ⟨later, hagrees⟩ := hagrees
      have hsplit : sample.encode.drop count = sample.header.drop count ++ sample.data := by
        rw [DsmSample.encode, List.drop_append_of_le_length (by
          rw [DsmSample.length_header]; exact Nat.le_of_lt hlt)]
      rw [nextSample, hosamp]
      dsimp only
      rw [htoRead, hheader]
      rcases Nat.lt_or_ge (count + state.bytes.length) sizeofDsmSampleHeader with hshort | hfull
      · have hmin : min (sizeofDsmSampleHeader - count) state.bytes.length = state.bytes.length := by
          omega
        have htake : state.bytes = (sample.header.drop count).take state.bytes.length := by
          have hprefix := congrArg (List.take state.bytes.length) hagrees
          rwa [List.take_left' rfl, hsplit, List.append_assoc, List.take_append_of_le_length (by
            rw [List.length_drop, DsmSample.length_header]; omega)] at hprefix
        rw [hmin, if_pos (by omega), List.take_length, List.drop_length]
        refine .more (by omega) (.header hshort rfl ?_ (by dsimp only; omega)) rfl rfl
        dsimp only
        rw [List.take_add, ← htake]
      · have hmin : min (sizeofDsmSampleHeader - count) state.bytes.length =
            sizeofDsmSampleHeader - count := by omega
        have htake : state.bytes.take (sizeofDsmSampleHeader - count) =
            sample.header.drop count := by
          have hprefix := congrArg (List.take (sizeofDsmSampleHeader - count)) hagrees
          rwa [List.take_append_of_le_length (by omega), hsplit, List.append_assoc,
            List.take_left' (by rw [List.length_drop, DsmSample.length_header])] at hprefix
        have hrest : ∃ later, state.bytes.drop (sizeofDsmSampleHeader - count) ++ later =
            sample.encode.drop sizeofDsmSampleHeader ++ left := by
          refine ⟨later, ?_⟩
          have hsuffix := congrArg (List.drop (sizeofDsmSampleHeader - count)) hagrees
          rwa [List.drop_append_of_le_length (by omega), List.drop_append_of_le_length (by
            rw [List.length_drop]; omega), List.drop_drop, Nat.add_sub_cancel' (Nat.le_of_lt hlt)]
            at hsuffix
        have hread := @readData_called env
          { state with
            header := sample.header
            bytes := state.bytes.drop (sizeofDsmSampleHeader - count)
            osamp := none
            outSampToRead := sample.data.length } sample sizeofDsmSampleHeader left
          (Nat.le_refl _) (by omega) rfl (by dsimp only; omega) hrest
        rw [hmin, if_neg (by simp), htake, List.take_append_drop, sample.ofLeBytes_header,
          sample.toSigned_header]
        rw [Nat.sub_self, List.take_zero] at hread
        have hbytes : (state.bytes.drop (sizeofDsmSampleHeader - count)).length =
            state.bytes.length - (sizeofDsmSampleHeader - count) := List.length_drop
        show Called env sample count state (readData env ⟨env.timeTag sample, []⟩ _)
        generalize readData env ⟨env.timeTag sample, []⟩ _ = outcome at hread ⊢
        cases hread with
        | more hless hafter hnil hcalls =>
            dsimp only at hless hafter
            rw [hbytes] at hless hafter
            refine .more (by omega) ?_ hnil hcalls
            rwa [show sizeofDsmSampleHeader + (state.bytes.length - (sizeofDsmSampleHeader - count)) =
              count + state.bytes.length by omega] at hafter
        | done hle hfresh hnext hcalls =>
            dsimp only at hle hnext
            rw [hbytes] at hle
            refine .done (by omega) hfresh ?_ hcalls
            rw [hnext, List.drop_drop]
            congr 1
            omega

end DriverScanState

end Nidas.Core
