import Mathlib.Data.Int.Init

/-!
# Units of time in the drivers

Time tags of the drivers are tenths of milliseconds since midnight.
-/

namespace Nidas.Linux

def USECS_PER_TMSEC : ℤ := 100

def MSECS_PER_SEC : ℤ := 1000

def TMSECS_PER_SEC : ℤ := 10000

def TMSECS_PER_DAY : ℤ := 864000000

end Nidas.Linux
