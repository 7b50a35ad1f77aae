import Recurrence.Calendar.Year
import Recurrence.Calendar.Weekday
import Recurrence.Width

/-!
# Dates

A date is the number of a day inside the calendar, which runs from the first day of year -262143 to
the last day of year 262142. Year, month, day of the month and day of the year are computed from it.
-/

namespace Recurrence.Calendar

set_option autoImplicit false

def firstYear : Int := -262143

def lastYear : Int := 262142

structure Date where
  /-- Days since the first day of year 0. -/
  number : Int
  first_le : yearStart firstYear ≤ number
  lt_end : number < yearStart (lastYear + 1)
deriving DecidableEq

/-- A date written as year, month and day, with the day of the year beside them. -/
structure Civil where
  year : Int
  month : Nat
  day : Nat
  yearDay : Nat
deriving DecidableEq, Repr

namespace Date

theorem ext {a b : Date} (h : a.number = b.number) : a = b := by
  cases a; cases b; simp_all

instance : LT Date := ⟨fun a b => a.number < b.number⟩

instance : LE Date := ⟨fun a b => a.number ≤ b.number⟩

instance : DecidableLT Date := fun a b => inferInstanceAs (Decidable (a.number < b.number))

instance : DecidableLE Date := fun a b => inferInstanceAs (Decidable (a.number ≤ b.number))

def ofNumber? (n : Int) : Option Date :=
  if h : yearStart firstYear ≤ n ∧ n < yearStart (lastYear + 1) then some ⟨n, h.1, h.2⟩ else none

/-- Days since the first day of the calendar. -/
def index (d : Date) : Nat := (d.number - yearStart firstYear).toNat

def ofIndex? (n : Nat) : Option Date := ofNumber? (yearStart firstYear + n)

def ofCivil? (year : Int) (month day : Nat) : Option Date :=
  if 1 ≤ day ∧ day ≤ daysInMonth year month then
    ofNumber? (yearStart year + daysBeforeMonth (isLeap year) month + (day - 1 : Nat))
  else none

def civil (d : Date) : Civil :=
  let year := yearOf d.number
  let leap := isLeap year
  let day := (d.number - yearStart year).toNat
  let month := monthOf leap day
  ⟨year, month, day + 1 - daysBeforeMonth leap month, day + 1⟩

def year (d : Date) : Int := d.civil.year

def month (d : Date) : Nat := d.civil.month

def day (d : Date) : Nat := d.civil.day

def yearDay (d : Date) : Nat := d.civil.yearDay

/-- Day 0 is a Saturday. -/
def weekday (d : Date) : Weekday := .ofMonday ((d.number + 5) % 7).toNat

def addDays? (d : Date) (n : Int) : Option Date := ofNumber? (d.number + n)

/-- Months since the first month of year 0. -/
def monthIndex (d : Date) : Int :=
  let c := d.civil
  c.year * 12 + (c.month - 1 : Nat)

/-- The first day of the month with an index. -/
def ofMonthIndex? (index : Int) : Option Date := do
  let year ← fit? 32 (index / 12)
  ofCivil? year ((index % 12).toNat + 1) 1

/-- The first day of the week of `d`, for weeks that begin on `first`. -/
def weekStart? (d : Date) (first : Weekday) : Option Date :=
  d.addDays? (-((7 + d.weekday.fromMonday - first.fromMonday) % 7 : Nat))

@[simp] theorem number_ofNumber? {n : Int} {d : Date} : ofNumber? n = some d ↔ d.number = n := by
  unfold ofNumber?
  split
  · constructor
    · intro h
      cases h
      rfl
    · rintro rfl
      rfl
  · next h =>
    simp only [reduceCtorEq, false_iff]
    rintro rfl
    exact h ⟨d.first_le, d.lt_end⟩

theorem number_eq_index (d : Date) : d.number = yearStart firstYear + d.index := by
  have := d.first_le
  unfold index
  omega

@[simp] theorem index_ofIndex? {n : Nat} {d : Date} : ofIndex? n = some d ↔ d.index = n := by
  rw [ofIndex?, number_ofNumber?, number_eq_index]
  omega

theorem dayOfYear_lt (d : Date) :
    (d.number - yearStart (yearOf d.number)).toNat < daysInYear (yearOf d.number) := by
  have h1 := yearStart_yearOf_le d.number
  have h2 := lt_yearStart_yearOf d.number
  rw [yearStart_succ] at h2
  omega

theorem civil_bounds (d : Date) :
    1 ≤ d.day ∧ d.day ≤ daysInMonth d.year d.month ∧
      daysBeforeMonth (isLeap d.year) d.month + d.day = d.yearDay := by
  have h := dayOfYear_lt d
  have hm := day_mem_month (isLeap (yearOf d.number)) (d.number - yearStart (yearOf d.number)).toNat
    (by unfold daysInYear at h; split at h <;> omega)
    (by intro hl; simp only [daysInYear, hl] at h; simp at h; omega)
  simp only [day, month, year, yearDay, civil, daysInMonth]
  omega

theorem month_mem (d : Date) : 1 ≤ d.month ∧ d.month ≤ 12 :=
  monthOf_mem _ _ (Nat.lt_of_lt_of_le (dayOfYear_lt d) (by unfold daysInYear; split <;> decide))

theorem number_eq (d : Date) :
    d.number = yearStart d.year + daysBeforeMonth (isLeap d.year) d.month + (d.day - 1 : Nat) := by
  have h := civil_bounds d
  have hy : yearStart d.year ≤ d.number := yearStart_yearOf_le d.number
  have : d.yearDay = (d.number - yearStart d.year).toNat + 1 := rfl
  omega

theorem ofCivil?_civil (d : Date) : ofCivil? d.year d.month d.day = some d := by
  have h := civil_bounds d
  rw [ofCivil?, if_pos ⟨h.1, h.2.1⟩, number_ofNumber?]
  exact number_eq d

end Date

end Recurrence.Calendar
