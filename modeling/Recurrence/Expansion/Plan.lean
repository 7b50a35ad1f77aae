import Recurrence.Expansion.Cadence
import Recurrence.Expansion.Position
import Recurrence.Rule.Basic

/-!
# Rules seen from their anchor

What a rule leaves open is taken from the time at which it starts: a rule without a filter on days
repeats the day of its anchor, and a rule without a time of day the time of its anchor.
-/

namespace Recurrence

set_option autoImplicit false

open Calendar

/-- A rule with its open parts filled in. -/
structure Plan where
  rule : Rule
  cadence : Cadence
  byMonth : OrderedSet Nat
  byMonthDay : OrderedSet Int
  byDay : OrderedSet NthWeekday
  /-- Whether the n-th weekday is counted in the month rather than in the year. -/
  ordinalInMonth : Bool
  hours : List Nat
  minutes : List Nat
  seconds : List Nat

namespace Plan

/-- The values of a part, or the one of the anchor. -/
def valuesOr (values : OrderedSet Nat) (anchor : Nat) : List Nat :=
  if values.isEmpty then [anchor] else values.toList

/-- Where the periods of a rule start. A week that begins before the calendar has no start. -/
def cadence? (rule : Rule) (anchor : Timestamp) : Option Cadence :=
  let clock := anchor.time
  match rule.frequency with
  | .yearly => some (.months (anchor.date.year * 12) (12 * rule.interval))
  | .monthly => some (.months anchor.date.monthIndex rule.interval)
  | .weekly => (anchor.date.weekStart? rule.weekStart).map fun date =>
      .seconds (date.index * 86400) (604800 * rule.interval)
  | .daily => some (.seconds (anchor.date.index * 86400) (86400 * rule.interval))
  | .hourly => some (.seconds (anchor.seconds - clock.seconds % 3600) (3600 * rule.interval))
  | .minutely => some (.seconds (anchor.seconds - clock.seconds % 60) (60 * rule.interval))
  | .secondly => some (.seconds anchor.seconds rule.interval)

/-- The plan of a rule that starts at `anchor` and has these periods. -/
def filled (rule : Rule) (anchor : Timestamp) (cadence : Cadence) : Plan :=
  let civil := anchor.date.civil
  let openDays := rule.byYearDay.isEmpty && rule.byMonthDay.isEmpty && rule.byDay.isEmpty
  { rule
    cadence
    byMonth :=
      if openDays && rule.frequency = .yearly && rule.byMonth.isEmpty then .singleton civil.month
      else rule.byMonth
    byMonthDay :=
      if openDays && (rule.frequency = .yearly || rule.frequency = .monthly) then
        .singleton civil.day
      else rule.byMonthDay
    byDay :=
      if openDays && rule.frequency = .weekly then .singleton (.every anchor.date.weekday)
      else rule.byDay
    ordinalInMonth :=
      rule.frequency = .monthly || (rule.frequency = .yearly && !rule.byMonth.isEmpty)
    hours := valuesOr rule.byHour anchor.time.hour
    minutes := valuesOr rule.byMinute anchor.time.minute
    seconds := valuesOr rule.bySecond anchor.time.second }

def of? (rule : Rule) (anchor : Timestamp) : Option Plan :=
  (cadence? rule anchor).map (filled rule anchor)

def allowsMonth (p : Plan) (date : Date) : Bool :=
  p.byMonth.isEmpty ||
    let month := date.month
    p.byMonth.toList.any fun m => m = month

def allowsYearDay (p : Plan) (date : Date) : Bool :=
  p.rule.byYearDay.isEmpty ||
    let c := date.civil
    p.rule.byYearDay.toList.any fun n => place? n (daysInYear c.year) = some c.yearDay

def allowsMonthDay (p : Plan) (date : Date) : Bool :=
  p.byMonthDay.isEmpty ||
    let c := date.civil
    p.byMonthDay.toList.any fun n => place? n (daysInMonth c.year c.month) = some c.day

/-- Whether a day is the n-th of its weekday in its month or its year. -/
def isNthDay (p : Plan) (date : Date) (n : Int) : Bool :=
  let c := date.civil
  if p.ordinalInMonth then isNth n c.day (daysInMonth c.year c.month)
  else isNth n c.yearDay (daysInYear c.year)

def allowsWeekday (p : Plan) (date : Date) : Bool :=
  p.byDay.isEmpty ||
    let weekday := date.weekday
    p.byDay.toList.any fun day => day.weekday = weekday && day.ordinal.all (p.isNthDay date)

def allows (p : Plan) (date : Date) : Bool :=
  p.allowsMonth date && p.allowsYearDay date && p.allowsMonthDay date && p.allowsWeekday date

/-- The months of a year that the plan looks at. -/
def months (p : Plan) : List Nat :=
  if p.byMonth.isEmpty then List.range' 1 12 else p.byMonth.toList

def daysOfMonth (year : Int) (month : Nat) : List Date :=
  let start := yearStart year + daysBeforeMonth (isLeap year) month
  (List.range (daysInMonth year month)).filterMap fun (n : Nat) => Date.ofNumber? (start + n)

/-- Seven days; a week ends early before the last day of the calendar. -/
def daysOfWeek (first : Date) : List Date :=
  (List.range 7).filterMap fun (n : Nat) =>
    (first.addDays? n).filter fun date => (date.addDays? 1).isSome

/-- The days of the period that starts on `first` and pass every filter, in order. -/
def days (p : Plan) (first : Date) : List Date :=
  let all := match p.rule.frequency with
    | .yearly => p.months.flatMap (daysOfMonth first.year)
    | .monthly => daysOfMonth first.year first.month
    | .weekly => daysOfWeek first
    | .daily | .hourly | .minutely | .secondly => [first]
  all.filter p.allows

/-- The number of times of day that the parts name; some of them may not exist. -/
def timesPerDay (p : Plan) : Nat := p.hours.length * p.minutes.length * p.seconds.length

def times (p : Plan) : List TimeOfDay :=
  p.hours.flatMap fun h => p.minutes.flatMap fun m => p.seconds.filterMap (TimeOfDay.ofClock? h m)

def timeAt? (p : Plan) (index : Nat) : Option TimeOfDay := do
  let perHour := p.minutes.length * p.seconds.length
  let hour ← p.hours[index / perHour]?
  let minute ← p.minutes[index % perHour / p.seconds.length]?
  let second ← p.seconds[index % perHour % p.seconds.length]?
  TimeOfDay.ofClock? hour minute second

end Plan

end Recurrence
