import Mathlib.Algebra.Group.Int.Defs
import Mathlib.Algebra.Group.Nat.Defs
import Mathlib.Data.Int.Init
import Mathlib.Data.List.Basic

/-!
# Samples

A sample is a time tag, an identifier, a data type and data bytes (`Sample.h`).
The time tag is in microseconds since 1970.  The identifier is the 26 bit field
of `SampleHeader::_tid` below the type; `getType` reads the other 6 bits.
-/

namespace Nidas.Core

/-- The types that `getSample(sampleType, unsigned int)` knows, in the order of
the source's enumeration.  `UNKNOWN_ST` is not a type of data. -/
inductive SampleType where
  | char
  | uchar
  | short
  | ushort
  | int32
  | uint32
  | float
  | double
  | int64
  deriving DecidableEq, Repr

namespace SampleType

/-- The value of the enumeration constant. -/
def code : SampleType → ℕ
  | char => 0
  | uchar => 1
  | short => 2
  | ushort => 3
  | int32 => 4
  | uint32 => 5
  | float => 6
  | double => 7
  | int64 => 8

/-- `sizeof` of one data value. -/
def size : SampleType → ℕ
  | char | uchar => 1
  | short | ushort => 2
  | int32 | uint32 | float => 4
  | double | int64 => 8

end SampleType

/-- A sample with its data as bytes. -/
structure Sample where
  timeTag : ℤ
  type : SampleType
  id : ℕ
  data : List UInt8
  deriving DecidableEq, Repr

namespace Sample

/-- `SampleT<DataT>::getDataLength`: the number of data values. -/
def dataLength (sample : Sample) : ℕ :=
  sample.data.length / sample.type.size

end Sample

/-- `USECS_PER_SEC` -/
def usecsPerSec : ℤ := 1000000

/-- `LONG_LONG_MIN` -/
def longLongMin : ℤ := -2 ^ 63

/-- `LONG_LONG_MAX` -/
def longLongMax : ℤ := 2 ^ 63 - 1

end Nidas.Core
