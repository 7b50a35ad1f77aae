/-!
# Settings
-/

namespace Recurrence

set_option autoImplicit false

structure Settings where
  maxEmptyPeriods : Nat := 100000
  maxOccurrences : Nat := 730
  level : String := "info"
deriving DecidableEq, Repr

inductive SettingsError
  /-- A layer cannot be read, or a value has the wrong type. -/
  | unreadable
  | noEmptyPeriods
  | noOccurrences
deriving DecidableEq, Repr

namespace SettingsError

def message : SettingsError → String
  | unreadable => "Configuration error"
  | noEmptyPeriods => "Invalid configuration: limits.max_empty_periods must be at least 1"
  | noOccurrences => "Invalid configuration: limits.max_occurrences must be at least 1"

end SettingsError

/-- Refuses a limit of 0. -/
def Settings.check (s : Settings) : Except SettingsError Settings :=
  if s.maxEmptyPeriods = 0 then .error .noEmptyPeriods
  else if s.maxOccurrences = 0 then .error .noOccurrences
  else .ok s

end Recurrence
