import Recurrence.Expansion.Plan

/-!
# Candidates of one period

A period of a day or more yields days, each of which stands for all times of day; a shorter one
yields instants. Positions pick from the candidates of the whole period.
-/

namespace Recurrence

set_option autoImplicit false

open Calendar

inductive Candidates
  | instants (times : List Timestamp)
  | days (dates : List Date)
  /-- Nothing before the given time can match. -/
  | skipTo (time : Timestamp)
  /-- The calendar ends before the next time that could match. -/
  | exhausted
deriving DecidableEq

namespace Candidates

def ofSkip : Option Timestamp → Candidates
  | some time => skipTo time
  | none => exhausted

end Candidates

namespace Plan

/-- The candidates at the positions of the rule, or all of them if it has none. -/
def pick (p : Plan) (times : List Timestamp) : List Timestamp :=
  if p.rule.byPosition.isEmpty then times
  else (OrderedSet.ofList (p.rule.byPosition.toList.filterMap fun position => do
    let place ← place? position times.length
    times[place - 1]?)).toList

/-- The same for days crossed with the times of day, without listing them. -/
def pickFromDays (p : Plan) (dates : List Date) : List Timestamp :=
  let total := min (dates.length * p.timesPerDay) 4294967295
  (OrderedSet.ofList (p.rule.byPosition.toList.filterMap fun position => do
    let place ← place? position total
    let date ← dates[(place - 1) / p.timesPerDay]?
    let time ← p.timeAt? ((place - 1) % p.timesPerDay)
    return Timestamp.of date time)).toList

/-- Whether a part is missing or lists a value. -/
def permits (values : OrderedSet Nat) (value : Nat) : Bool :=
  values.isEmpty || values.toList.any fun v => v = value

/-- The candidates of an hour, a minute or a second. -/
def subDaily (p : Plan) (start : Timestamp) : Candidates :=
  let date := start.date
  let hour := start.time.hour
  let minute := start.time.minute
  let midnight := date.index * 86400
  let at? (m s : Nat) := (TimeOfDay.ofClock? hour m s).map (Timestamp.of date)
  if !p.allows date then
    .ofSkip ((date.addDays? 1).map Timestamp.startOfDay)
  else if !permits p.rule.byHour hour then
    .ofSkip (Timestamp.ofSeconds? (midnight + hour * 3600 + 3600))
  else match p.rule.frequency with
    | .hourly => .instants (p.pick (p.minutes.flatMap fun m => p.seconds.filterMap (at? m)))
    | .minutely =>
      if !permits p.rule.byMinute minute then
        .ofSkip (Timestamp.ofSeconds? (midnight + hour * 3600 + minute * 60 + 60))
      else .instants (p.pick (p.seconds.filterMap (at? minute)))
    | .secondly =>
      if !permits p.rule.byMinute minute then
        .ofSkip (Timestamp.ofSeconds? (midnight + hour * 3600 + minute * 60 + 60))
      else if permits p.rule.bySecond start.time.second then .instants (p.pick [start])
      else .instants (p.pick [])
    | .daily | .weekly | .monthly | .yearly => .instants []

def candidates (p : Plan) (start : Timestamp) : Candidates :=
  if p.rule.frequency.isSubDaily then p.subDaily start
  else
    let dates := p.days start.date
    if p.rule.byPosition.isEmpty then .days dates else .instants (p.pickFromDays dates)

end Plan

end Recurrence
