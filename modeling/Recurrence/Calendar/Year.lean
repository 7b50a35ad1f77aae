/-!
# Years and months of the Gregorian calendar

The calendar is extended to all years, a year 0 included. Days are numbered from the first day of
year 0: `yearStart_yearOf_le` and `lt_yearStart_yearOf` say that `yearOf` finds the year of a day.
-/

namespace Recurrence.Calendar

set_option autoImplicit false

def isLeap (year : Int) : Bool :=
  year % 4 = 0 && (year % 100 ≠ 0 || year % 400 = 0)

def daysInYear (year : Int) : Nat := if isLeap year then 366 else 365

/-- The number of days of a month; a month outside 1..12 has none. -/
def monthLength (leap : Bool) : Nat → Nat
  | 1 | 3 | 5 | 7 | 8 | 10 | 12 => 31
  | 4 | 6 | 9 | 11 => 30
  | 2 => if leap then 29 else 28
  | _ => 0

def daysInMonth (year : Int) (month : Nat) : Nat := monthLength (isLeap year) month

/-- The number of days of a year before the given month. -/
def daysBeforeMonth (leap : Bool) (month : Nat) : Nat :=
  let late := if leap then 1 else 0
  match month with
  | 2 => 31
  | 3 => 59 + late
  | 4 => 90 + late
  | 5 => 120 + late
  | 6 => 151 + late
  | 7 => 181 + late
  | 8 => 212 + late
  | 9 => 243 + late
  | 10 => 273 + late
  | 11 => 304 + late
  | 12 => 334 + late
  | _ => 0

/-- The month of a day of the year, counted from 0. No month has more than 31 days and the earlier
ones make up for the short ones, so the quotient by 32 is off by one at most. -/
def monthOf (leap : Bool) (day : Nat) : Nat :=
  let guess := day / 32 + 1
  if guess < 12 && daysBeforeMonth leap (guess + 1) ≤ day then guess + 1 else guess

/-- The number of the first day of a year. -/
def yearStart (year : Int) : Int :=
  365 * year + (year + 3) / 4 - (year + 99) / 100 + (year + 399) / 400

/-- The year of a day: 400 years have 146097 days, so their ratio is off by one at most. -/
def yearOf (day : Int) : Int :=
  let guess := day / 146097 * 400 + day % 146097 * 400 / 146097
  if day < yearStart guess then guess - 1
  else if yearStart (guess + 1) ≤ day then guess + 1
  else guess

theorem yearStart_succ (year : Int) : yearStart (year + 1) = yearStart year + daysInYear year := by
  by_cases h : isLeap year = true
  · rw [daysInYear, if_pos h]
    simp only [isLeap, Bool.and_eq_true, Bool.or_eq_true, decide_eq_true_eq] at h
    simp only [yearStart]
    omega
  · rw [daysInYear, if_neg h]
    simp only [isLeap, Bool.and_eq_true, Bool.or_eq_true, decide_eq_true_eq] at h
    simp only [yearStart]
    omega

theorem yearStart_yearOf_le (day : Int) : yearStart (yearOf day) ≤ day := by
  simp only [yearOf]
  split
  · simp only [yearStart] at *; omega
  · split <;> omega

theorem lt_yearStart_yearOf (day : Int) : day < yearStart (yearOf day + 1) := by
  simp only [yearOf]
  split
  · simpa
  · split
    · simp only [yearStart] at *; omega
    · omega

theorem monthOf_mem : ∀ (leap : Bool) (day : Nat), day < 366 →
    1 ≤ monthOf leap day ∧ monthOf leap day ≤ 12 := by
  decide +kernel

theorem day_mem_month : ∀ (leap : Bool) (day : Nat), day < 366 → (leap = false → day ≠ 365) →
    daysBeforeMonth leap (monthOf leap day) ≤ day ∧
      day < daysBeforeMonth leap (monthOf leap day) + monthLength leap (monthOf leap day) := by
  decide +kernel

end Recurrence.Calendar
