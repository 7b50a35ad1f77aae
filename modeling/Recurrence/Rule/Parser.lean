import Recurrence.Rule.Valid
import Recurrence.Text.Blank

/-!
# Reading rules

The parts of a rule are separated by semicolons and may come in any order. They are collected first,
then read in the order of `Field.all`, and the rule is checked last.
-/

namespace Recurrence

set_option autoImplicit false

open Calendar Text

/-- A part as it stands in the text. -/
structure Entry where
  field : Field
  value : List Char

/-- The pieces between separators without the white space around them. -/
def pieces (sep : Char) (cs : List Char) : List (List Char) := (splitOn sep cs).map trim

namespace Entry

def read (segment : List Char) : Except RuleError Entry :=
  match cut? '=' segment with
  | none => .error (.invalidValue segment .notKeyValue)
  | some (key, value) =>
    match Field.ofName? (trim key) with
    | none => .error (.unknownField ((trim key).map Char.toUpper))
    | some field => .ok ⟨field, trim value⟩

/-- Reads the segments in order; a part may come once. -/
def readAll (earlier : List Entry) : List (List Char) → Except RuleError (List Entry)
  | [] => .ok earlier
  | segment :: rest => do
    let entry ← read segment
    if earlier.any fun e => e.field = entry.field then
      throw (.duplicateField entry.field.name)
    readAll (earlier ++ [entry]) rest

/-- The parts of a rule; blank segments do not count. -/
def collect (cs : List Char) : Except RuleError (List Entry) :=
  readAll [] ((pieces ';' cs).filter (· ≠ []))

end Entry

namespace Rule

def readPositive (cs : List Char) : Except Fault Nat :=
  match unsigned? 4294967295 cs with
  | some n => .ok n
  | none => .error .notPositive

def readTimestamp (cs : List Char) : Except Fault Timestamp :=
  (Timestamp.parse cs).mapError .notTimestamp

def readWeekday (cs : List Char) : Except Fault Weekday :=
  match Weekday.ofCode? cs with
  | some day => .ok day
  | none => .error (.notWeekdayCode cs)

/-- A weekday code, perhaps after an ordinal. -/
def readNthWeekday (cs : List Char) : Except Fault NthWeekday := do
  if cs.length < 2 || cs.any fun c => 0x7f < c.toNat then
    throw (.notWeekday cs)
  let weekday ← readWeekday (cs.drop (cs.length - 2))
  let ordinal := cs.take (cs.length - 2)
  if ordinal = [] then
    return .every weekday
  match signed? (-128) 127 ordinal with
  | none => throw (.notOrdinal ordinal)
  | some n =>
    match NthWeekday.nth? n weekday with
    | none => throw (.ordinalOutside n)
    | some day => return day

def readUnsigned (max : Nat) (cs : List Char) : Except Fault Nat :=
  match unsigned? max cs with
  | some n => .ok n
  | none => .error (.notInteger cs)

def readSigned (low high : Int) (cs : List Char) : Except Fault Int :=
  match signed? low high cs with
  | some n => .ok n
  | none => .error (.notInteger cs)

section Sets

variable {α : Type} [LT α] [DecidableLT α]
  [Trans (LT.lt (α := α)) (LT.lt (α := α)) (LT.lt (α := α))]

/-- Reads a list of values, the first fault first. -/
def readSet (read : List Char → Except Fault α) (cs : List Char) : Except Fault (OrderedSet α) :=
  return .ofList (← (pieces ',' cs).mapM read)

end Sets

def readField {α : Type} (entries : List Entry) (field : Field) (default : α)
    (read : List Char → Except Fault α) : Except RuleError α :=
  match entries.find? fun e => e.field = field with
  | none => .ok default
  | some ⟨_, []⟩ => .error (.invalidValue field.name .empty)
  | some ⟨_, value⟩ => (read value).mapError (.invalidValue field.name)

def readFrequency (entries : List Entry) : Except RuleError Frequency :=
  match entries.find? fun e => e.field = .freq with
  | none => .error .missingFrequency
  | some entry =>
    match Frequency.ofKeyword? entry.value with
    | some frequency => .ok frequency
    | none => .error (.invalidValue Field.freq.name (.notFrequency entry.value))

/-- The rule of the collected parts, not yet checked. -/
def ofEntries (entries : List Entry) : Except RuleError Rule := do
  let frequency ← readFrequency entries
  let interval ← readField entries .interval 1 readPositive
  let count ← readField entries .count none fun cs => some <$> readPositive cs
  let last ← readField entries .last none fun cs => some <$> readTimestamp cs
  let weekStart ← readField entries .wkst .monday readWeekday
  let byDay ← readField entries .byDay {} (readSet readNthWeekday)
  let byMonthDay ← readField entries .byMonthDay {} (readSet (readSigned (-128) 127))
  let byMonth ← readField entries .byMonth {} (readSet (readUnsigned 255))
  let byYearDay ← readField entries .byYearDay {} (readSet (readSigned (-32768) 32767))
  let byHour ← readField entries .byHour {} (readSet (readUnsigned 255))
  let byMinute ← readField entries .byMinute {} (readSet (readUnsigned 255))
  let bySecond ← readField entries .bySecond {} (readSet (readUnsigned 255))
  let byPosition ← readField entries .bySetPos {} (readSet (readSigned (-32768) 32767))
  return { frequency, interval, count, last, weekStart, byDay, byMonthDay, byMonth, byYearDay,
           byHour, byMinute, bySecond, byPosition }

/-- Reads a rule; it has no anchor. -/
def parse (cs : List Char) : Except RuleError Rule := do
  let entries ← Entry.collect cs
  let rule ← ofEntries entries
  rule.check
  return rule

end Rule

end Recurrence
