import Mathlib.Data.Rat.Init
import Nidas.Core.Sample

/-!
# Samples with values

Averagers, resamplers and statistics read the data of a sample by `getDataValue`, as numbers of type
`double`.  The numbers are exact here.
-/

namespace Nidas.Core

/-- A sample with its data as values.  `none` is not-a-number. -/
structure ValueSample where
  timeTag : ℤ
  id : ℕ
  type : SampleType
  data : List (Option ℚ)
  deriving DecidableEq, Repr

/-- A value of a sample that is there and is not NaN. -/
def ValueSample.value? (samp : ValueSample) (i : ℕ) : Option ℚ := (samp.data[i]?).join

end Nidas.Core
