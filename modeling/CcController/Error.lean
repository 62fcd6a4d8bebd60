import Mathlib.Data.Int.Notation

/-!
# Return codes

The members of `enum error_code`.
-/

namespace CcController

abbrev ccEErr : ℤ := -1
abbrev ccENone : ℤ := 0
abbrev ccENomem : ℤ := 1
abbrev ccETimeout : ℤ := 2
abbrev ccEUntimeout : ℤ := 3
abbrev ccEInval : ℤ := 4
abbrev ccEEmpty : ℤ := 5
abbrev ccEErrRecv : ℤ := 6

end CcController
