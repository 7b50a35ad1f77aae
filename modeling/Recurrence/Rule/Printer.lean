import Recurrence.Calendar.Form
import Recurrence.Rule.Basic

/-!
# Written rules

A rule is written as its parts in a fixed order; a part with its default value is left out.
-/

namespace Recurrence

set_option autoImplicit false

open Calendar Text

def NthWeekday.chars (day : NthWeekday) : List Char :=
  match day.ordinal with
  | none => day.weekday.code
  | some n => integer n ++ day.weekday.code

namespace Rule

def part (field : Field) (value : List Char) : List Char := field.name ++ '=' :: value

/-- A part that lists values, left out if there are none. -/
def listPart {α : Type} [LT α] (field : Field) (write : α → List Char) (values : OrderedSet α) :
    List (List Char) :=
  if values.isEmpty then [] else [part field ([','].intercalate (values.toList.map write))]

def parts (r : Rule) : List (List Char) :=
  [part .freq r.frequency.keyword] ++
  (if r.interval = 1 then [] else [part .interval (digits r.interval)]) ++
  (r.last.toList.map fun t => part .last t.chars) ++
  (r.count.toList.map fun n => part .count (digits n)) ++
  (if r.weekStart = .monday then [] else [part .wkst r.weekStart.code]) ++
  listPart .bySecond digits r.bySecond ++
  listPart .byMinute digits r.byMinute ++
  listPart .byHour digits r.byHour ++
  listPart .byDay NthWeekday.chars r.byDay ++
  listPart .byMonthDay integer r.byMonthDay ++
  listPart .byYearDay integer r.byYearDay ++
  listPart .byMonth digits r.byMonth ++
  listPart .bySetPos integer r.byPosition

def chars (r : Rule) : List Char := [';'].intercalate r.parts

def text (r : Rule) : String := String.ofList r.chars

end Rule

end Recurrence
