import Recurrence.Calendar.Timestamp
import Recurrence.Text.Numeral

/-!
# Written timestamps

A timestamp is written as a date alone at midnight, else as a date and a time of day around a `T`.
Years outside 0..9999 carry a sign. Fractions of a second are not written, but a leap second is
written as second 60.
-/

namespace Recurrence.Calendar

set_option autoImplicit false

open Text

/-- Four digits for the years 0..9999, else a sign and at least four digits. -/
def yearText (year : Int) : List Char :=
  if year < 0 then '-' :: padded 4 year.natAbs
  else if year ≤ 9999 then padded 4 year.natAbs
  else '+' :: padded 5 year.natAbs

def dateText (date : Date) : List Char :=
  let c := date.civil
  yearText c.year ++ '-' :: padded 2 c.month ++ '-' :: padded 2 c.day

def timeText (t : Timestamp) : List Char :=
  let second := if 1000000000 ≤ t.nano then t.time.second + 1 else t.time.second
  padded 2 t.time.hour ++ ':' :: padded 2 t.time.minute ++ ':' :: padded 2 second

namespace Timestamp

inductive Form
  | date
  | dateTime
deriving DecidableEq, Repr

/-- The shortest form that tells the timestamp. -/
def form (t : Timestamp) : Form := if t.isMidnight then .date else .dateTime

/-- A timestamp in a form; the form of a date is kept for midnight. -/
def format (form : Form) (t : Timestamp) : List Char :=
  match form, t.isMidnight with
  | .date, true => dateText t.date
  | _, _ => dateText t.date ++ 'T' :: timeText t

def chars (t : Timestamp) : List Char := t.format t.form

def text (t : Timestamp) : String := String.ofList t.chars

end Timestamp

end Recurrence.Calendar
