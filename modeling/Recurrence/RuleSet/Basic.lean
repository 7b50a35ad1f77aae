import Recurrence.Rule.Basic

/-!
# Rule sets
-/

namespace Recurrence

set_option autoImplicit false

open Calendar

/-- A rule with dates that are added to its occurrences and dates and rules that are taken away. -/
structure RuleSet where
  rule : Rule
  dates : OrderedSet Timestamp := {}
  exceptDates : OrderedSet Timestamp := {}
  exceptRules : List Rule := []
deriving DecidableEq

end Recurrence
