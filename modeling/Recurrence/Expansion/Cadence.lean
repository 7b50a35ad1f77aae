import Recurrence.Calendar.Timestamp

/-!
# Period starts

The periods of a rule are numbered from 0. They start a fixed number of months or of seconds apart.
-/

namespace Recurrence

set_option autoImplicit false

open Calendar

inductive Cadence
  /-- Each period starts with a month; months are numbered by `Date.monthIndex`. -/
  | months (origin : Int) (step : Nat)
  /-- Each period starts with a second; seconds are numbered by `Timestamp.seconds`. -/
  | seconds (origin : Nat) (step : Nat)
deriving DecidableEq, Repr

/-- The whole seconds from `origin` to `t`, or 0 if `t` is earlier. A leap second counts as one of
its own if it comes at or after the time of day of the origin. -/
def secondsSince (origin : Nat) (t : Timestamp) : Nat :=
  let leap := 1000000000 ≤ t.nano && origin % 86400 ≤ t.time.seconds
  t.seconds + (if leap then 1 else 0) - origin

namespace Cadence

/-- The longest time that can be added to another one, in seconds: its milliseconds fit into 64
bits. -/
def longestGap : Nat := 9223372036854775

/-- The start of a period, if the calendar has it and no number on the way is too large. -/
def start? (c : Cadence) (index : Nat) : Option Timestamp := do
  let _ ← fit? 64 index
  match c with
  | months origin step =>
    let gap ← fit? 64 (index * step)
    let month ← fit? 64 (origin + gap)
    (Date.ofMonthIndex? month).map Timestamp.startOfDay
  | seconds origin step =>
    let gap ← fit? 64 (index * step)
    if gap.toNat ≤ longestGap then Timestamp.ofSeconds? (origin + gap.toNat) else none

/-- How many periods have ended at `t`. -/
def ended (c : Cadence) (t : Timestamp) : Nat :=
  match c with
  | months origin step => ((t.date.monthIndex - origin) / step).toNat
  | seconds origin step => secondsSince origin t / step

/-- The number of the first period that starts at `t` or later. If periods are seconds apart, a
fraction of a second in `t` does not count. -/
def firstFrom (c : Cadence) (t : Timestamp) : Nat :=
  match c with
  | months origin step =>
    let gap := t.date.monthIndex - origin
    let late := 1 < t.date.day || !t.isMidnight
    (gap / step + if gap % step ≠ 0 || late then 1 else 0).toNat
  | seconds origin step => (secondsSince origin t + step - 1) / step

/-- How many periods start before `t`. -/
def startedBefore (c : Cadence) (t : Timestamp) : Nat :=
  match c with
  | months _ _ => c.firstFrom t
  | seconds origin step =>
    let gap := t.seconds + (if t.nano = 0 then 0 else 1) - origin
    (gap + step - 1) / step

end Cadence

end Recurrence
