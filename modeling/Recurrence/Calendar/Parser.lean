import Recurrence.Calendar.Timestamp
import Recurrence.Text.Numeral
import Recurrence.Text.Split

/-!
# Reading timestamps

A timestamp is read from a date of fixed width, or from a date and a time of day of fixed width
around a `T`.
-/

namespace Recurrence.Calendar

set_option autoImplicit false

open Text

inductive TimestampError
  | malformed
  | noSuchDate
  | noSuchTime
deriving DecidableEq, Repr

def TimestampError.message : TimestampError → String
  | malformed => "expected YYYY-MM-DD or YYYY-MM-DDTHH:MM:SS"
  | noSuchDate => "no such calendar date"
  | noSuchTime => "time of day out of range"

def parseDate : List Char → Except TimestampError Date
  | [y₁, y₂, y₃, y₄, '-', m₁, m₂, '-', d₁, d₂] =>
    match natural? [y₁, y₂, y₃, y₄], natural? [m₁, m₂], natural? [d₁, d₂] with
    | some year, some month, some day =>
      match Date.ofCivil? year month day with
      | some date => .ok date
      | none => .error .noSuchDate
    | _, _, _ => .error .malformed
  | _ => .error .malformed

def parseTime : List Char → Except TimestampError TimeOfDay
  | [h₁, h₂, ':', m₁, m₂, ':', s₁, s₂] =>
    match natural? [h₁, h₂], natural? [m₁, m₂], natural? [s₁, s₂] with
    | some hour, some minute, some second =>
      match TimeOfDay.ofClock? hour minute second with
      | some time => .ok time
      | none => .error .noSuchTime
    | _, _, _ => .error .malformed
  | _ => .error .malformed

/-- Reads a timestamp; a fault of the date is reported before one of the time of day. -/
def Timestamp.parse (cs : List Char) : Except TimestampError Timestamp :=
  if cs.any fun c => 0x7f < c.toNat then .error .malformed
  else match cut? 'T' cs with
    | none => do
      let date ← parseDate cs
      return .startOfDay date
    | some (day, clock) => do
      let date ← parseDate day
      let time ← parseTime clock
      return .of date time

end Recurrence.Calendar
