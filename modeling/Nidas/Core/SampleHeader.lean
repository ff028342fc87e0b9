import Nidas.Lib.LittleEndian
import Nidas.Core.Sample

/-!
# Sample headers and the bad sample filter

In an archive a sample is a header of 16 bytes and then its data: the time tag,
the length of the data in bytes, and a word with the type in its upper 6 bits
and the id in the others.  The bytes are little endian, as `SampleInputStream`
reads them on any host.
-/

namespace Nidas.Core

open Lib

/-- `SampleHeader::getSizeOf()` -/
def sampleHeaderSize : ℕ := 16

/-- The members of a `SampleHeader`. -/
structure SampleHeader where
  timeTag : ℤ
  dataByteLength : ℕ
  rawId : ℕ
  deriving DecidableEq, Repr

namespace SampleHeader

/-- `GET_SAMPLE_TYPE` -/
def type (header : SampleHeader) : ℕ := header.rawId / 2 ^ 26

/-- `GET_FULL_ID` -/
def id (header : SampleHeader) : ℕ := header.rawId % 2 ^ 26

/-- `GET_DSM_ID` -/
def dsmId (header : SampleHeader) : ℕ := header.rawId % 2 ^ 26 / 2 ^ 16

/-- The header that 16 bytes stand for. -/
def ofBytes (bytes : List UInt8) : SampleHeader where
  timeTag := toSigned 64 (ofLeBytes (bytes.take 8))
  dataByteLength := ofLeBytes ((bytes.drop 8).take 4)
  rawId := ofLeBytes ((bytes.drop 12).take 4)

/-- The bytes of a header. -/
def toBytes (header : SampleHeader) : List UInt8 :=
  leBytes 8 (ofSigned 64 header.timeTag) ++ leBytes 4 header.dataByteLength ++
    leBytes 4 header.rawId

@[simp] theorem length_toBytes (header : SampleHeader) :
    header.toBytes.length = sampleHeaderSize := by
  simp [toBytes, sampleHeaderSize]

theorem ofBytes_dataByteLength_lt (bytes : List UInt8) :
    (ofBytes bytes).dataByteLength < 2 ^ 32 := by
  have hlt := ofLeBytes_lt ((bytes.drop 8).take 4)
  have hlength : ((bytes.drop 8).take 4).length ≤ 4 := List.length_take_le ..
  calc ofLeBytes ((bytes.drop 8).take 4) < 256 ^ ((bytes.drop 8).take 4).length := hlt
    _ ≤ 256 ^ 4 := Nat.pow_le_pow_right (by decide) hlength
    _ = 2 ^ 32 := by decide

/-- A header whose members fit their C types is read back from its bytes. -/
theorem ofBytes_toBytes {header : SampleHeader} (hmin : longLongMin ≤ header.timeTag)
    (hmax : header.timeTag ≤ longLongMax) (hlength : header.dataByteLength < 2 ^ 32)
    (hraw : header.rawId < 2 ^ 32) : ofBytes header.toBytes = header := by
  have htime : ofLeBytes (leBytes 8 (ofSigned 64 header.timeTag)) = ofSigned 64 header.timeTag :=
    ofLeBytes_leBytes_of_lt (ofSigned_lt 64 header.timeTag)
  have hsigned : toSigned 64 (ofSigned 64 header.timeTag) = header.timeTag := by
    apply toSigned_ofSigned (by decide)
    · exact hmin
    · exact Int.lt_of_le_sub_one hmax
  have hfront : header.toBytes.take 8 = leBytes 8 (ofSigned 64 header.timeTag) := by
    rw [toBytes, List.append_assoc, List.take_left' (length_leBytes _ _)]
  have hback : header.toBytes.drop 8 = leBytes 4 header.dataByteLength ++ leBytes 4 header.rawId := by
    rw [toBytes, List.append_assoc, List.drop_left' (length_leBytes _ _)]
  have hword : header.toBytes.drop 12 = leBytes 4 header.rawId := by
    rw [show (12 : ℕ) = 8 + 4 from rfl, ← List.drop_drop, hback,
      List.drop_left' (length_leBytes _ _)]
  unfold ofBytes
  rw [hfront, hback, hword, htime, hsigned, List.take_left' (length_leBytes _ _),
    List.take_of_length_le (by simp), ofLeBytes_leBytes_of_lt hlength,
    ofLeBytes_leBytes_of_lt hraw]

end SampleHeader

/-! ## Types of data -/

/-- The type of an enumeration constant. -/
def SampleType.ofCode? : ℕ → Option SampleType
  | 0 => some .char
  | 1 => some .uchar
  | 2 => some .short
  | 3 => some .ushort
  | 4 => some .int32
  | 5 => some .uint32
  | 6 => some .float
  | 7 => some .double
  | 8 => some .int64
  | _ => none

@[simp] theorem SampleType.ofCode?_code (type : SampleType) : ofCode? type.code = some type := by
  cases type <;> rfl

theorem SampleType.code_lt (type : SampleType) : type.code < 9 := by
  cases type <;> decide

/-- `getSample(sampleType, unsigned int)`: the type of the sample that it gets, or
null if there is no such type or the length is not a number of data values. -/
def getSample (type length : ℕ) : Option SampleType :=
  match SampleType.ofCode? type with
  | none => none
  | some sampleType =>
      if length / sampleType.size * sampleType.size ≠ length then none else some sampleType

/-! ## Encoded samples -/

namespace Sample

/-- The header of a sample. -/
def header (sample : Sample) : SampleHeader where
  timeTag := sample.timeTag
  dataByteLength := sample.data.length
  rawId := sample.type.code * 2 ^ 26 + sample.id

/-- The bytes of a sample in an archive. -/
def encode (sample : Sample) : List UInt8 :=
  sample.header.toBytes ++ sample.data

/-- A sample whose members fit their C types, with whole data values. -/
structure Encodable (sample : Sample) : Prop where
  timeTag_ge : longLongMin ≤ sample.timeTag
  timeTag_le : sample.timeTag ≤ longLongMax
  id_lt : sample.id < 2 ^ 26
  length_lt : sample.data.length < 2 ^ 32
  length_mod : sample.data.length % sample.type.size = 0

variable {sample : Sample}

@[simp] theorem length_encode (sample : Sample) :
    sample.encode.length = sampleHeaderSize + sample.data.length := by
  simp [encode]

theorem Encodable.ofBytes_header (hencodable : sample.Encodable) :
    SampleHeader.ofBytes sample.header.toBytes = sample.header := by
  apply SampleHeader.ofBytes_toBytes hencodable.timeTag_ge hencodable.timeTag_le
    hencodable.length_lt
  have hcode := sample.type.code_lt
  have hid := hencodable.id_lt
  simp only [header]
  omega

theorem Encodable.header_id (hencodable : sample.Encodable) : sample.header.id = sample.id := by
  have hid := hencodable.id_lt
  simp only [header, SampleHeader.id]
  omega

theorem Encodable.header_type (hencodable : sample.Encodable) :
    sample.header.type = sample.type.code := by
  have hid := hencodable.id_lt
  simp only [header, SampleHeader.type]
  omega

theorem Encodable.getSample (hencodable : sample.Encodable) :
    getSample sample.header.type sample.header.dataByteLength = some sample.type := by
  have hdvd : sample.data.length / sample.type.size * sample.type.size = sample.data.length :=
    Nat.div_mul_cancel (Nat.dvd_of_mod_eq_zero hencodable.length_mod)
  have hlength : sample.header.dataByteLength = sample.data.length := rfl
  rw [Core.getSample, hencodable.header_type, SampleType.ofCode?_code, hlength]
  exact if_neg (not_not.mpr hdvd)

end Sample

/-! ## The bad sample filter -/

/-- The members of a `BadSampleFilter`, with the defaults of its constructor.
`sampleType` is none for `UNKNOWN_ST`. -/
structure BadSampleFilter where
  filterBadSamples : Bool := false
  minDsmId : ℕ := 1
  maxDsmId : ℕ := 1024
  minSampleLength : ℕ := 1
  maxSampleLength : ℕ := 32768
  minSampleTime : ℤ := longLongMin
  maxSampleTime : ℤ := longLongMax
  skipNidasHeader : Bool := false
  sampleType : Option SampleType := none
  deriving DecidableEq, Repr

/-- `BadSampleFilter::invalidSampleHeader` -/
def BadSampleFilter.invalidSampleHeader (bsf : BadSampleFilter) (sheader : SampleHeader) : Bool :=
  bsf.filterBadSamples &&
    (bsf.sampleType.any (fun type => sheader.type ≠ type.code) ||
      decide (sheader.type ≥ 9) ||
      decide (sheader.dsmId < bsf.minDsmId) ||
      decide (sheader.dsmId > bsf.maxDsmId) ||
      decide (sheader.dataByteLength < bsf.minSampleLength) ||
      decide (sheader.dataByteLength > bsf.maxSampleLength) ||
      decide (sheader.timeTag < bsf.minSampleTime) ||
      decide (sheader.timeTag > bsf.maxSampleTime))

/-- Whether a sample can be got for a header that passes the filter; the type of
its data. -/
def BadSampleFilter.accept (bsf : BadSampleFilter) (sheader : SampleHeader) : Option SampleType :=
  if bsf.filterBadSamples && bsf.invalidSampleHeader sheader then none
  else getSample sheader.type sheader.dataByteLength

end Nidas.Core
