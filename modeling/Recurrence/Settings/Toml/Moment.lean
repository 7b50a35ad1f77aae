import Recurrence.Calendar.Year
import Recurrence.Text.Numeral

/-!
# Dates and times of settings files

A date, a time of day or both, perhaps with a distance from universal time. The readers yield the
text in its normal form: a capital `T` and `Z`, and at most nine digits of a second without trailing
zeros.
-/

namespace Recurrence.Settings.Toml

set_option autoImplicit false

open Text

/-- Two digits of a number within bounds. -/
def pair? (low high : Nat) : List Char → Option (List Char × List Char)
  | a :: b :: rest =>
    ((natural? [a, b]).filter fun n => low ≤ n && n ≤ high).map fun _ => ([a, b], rest)
  | _ => none

def date? : List Char → Option (List Char × List Char)
  | y₁ :: y₂ :: y₃ :: y₄ :: '-' :: m₁ :: m₂ :: '-' :: d₁ :: d₂ :: rest => do
    let year ← natural? [y₁, y₂, y₃, y₄]
    let month ← natural? [m₁, m₂]
    let day ← natural? [d₁, d₂]
    if 1 ≤ day ∧ day ≤ Calendar.daysInMonth year month then
      return ([y₁, y₂, y₃, y₄, '-', m₁, m₂, '-', d₁, d₂], rest)
    none
  | _ => none

/-- The fraction of a second in its normal form; it keeps one digit at least. -/
def fractionText (digits : List Char) : List Char :=
  match (((digits.take 9).reverse.dropWhile (· = '0')).reverse) with
  | [] => ['.', '0']
  | digits => '.' :: digits

def fraction? : List Char → Option (List Char × List Char)
  | '.' :: rest =>
    match rest.takeWhile Char.isDigit with
    | [] => none
    | digits => some (fractionText digits, rest.dropWhile Char.isDigit)
  | rest => some ([], rest)

/-- A time of day; the seconds may be left out, and there may be a leap second. -/
def time? (cs : List Char) : Option (List Char × List Char) := do
  let (hour, rest) ← pair? 0 23 cs
  let ':' :: rest := rest | none
  let (minute, rest) ← pair? 0 59 rest
  match rest with
  | ':' :: rest =>
    let (second, rest) ← pair? 0 60 rest
    let (fraction, rest) ← fraction? rest
    return (hour ++ ':' :: minute ++ ':' :: second ++ fraction, rest)
  | rest => return (hour ++ ':' :: minute, rest)

/-- A distance from universal time; there is only one of no minutes. -/
def offset? : List Char → Option (List Char × List Char)
  | 'Z' :: rest | 'z' :: rest => some (['Z'], rest)
  | '+' :: rest => signed '+' rest
  | '-' :: rest => signed '-' rest
  | rest => some ([], rest)
where
  signed (sign : Char) (cs : List Char) : Option (List Char × List Char) := do
    let (hour, rest) ← pair? 0 23 cs
    let ':' :: rest := rest | none
    let (minute, rest) ← pair? 0 59 rest
    let text := hour ++ ':' :: minute
    return ((if text.all fun c => c = '0' || c = ':' then '+' else sign) :: text, rest)

/-- A whole word that is a date, a time of day, or both. -/
def moment? (cs : List Char) : Option (List Char) :=
  match date? cs with
  | none => do
    let (time, []) ← time? cs | none
    return time
  | some (date, []) => some date
  | some (date, c :: rest) => do
    if c = 'T' ∨ c = 't' ∨ c = ' ' then
      let (time, rest) ← time? rest
      let (offset, []) ← offset? rest | none
      return date ++ 'T' :: time ++ offset
    none

end Recurrence.Settings.Toml
