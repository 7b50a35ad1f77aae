import Mathlib.Data.Int.ConditionallyCompleteOrder
import Mathlib.Order.ConditionallyCompleteLattice.Basic
import Recurrence.Calendar.Timestamp

/-!
# Months and years as runs of days

`yearStart` and `monthStart` are strictly increasing, so a day lies in exactly one year and in
exactly one month: the one whose first day is the last not after it.
-/

namespace Recurrence.Calendar

set_option autoImplicit false

/-- The number of the first day of a month; months are numbered as by `Date.monthIndex`. -/
def monthStart (index : Int) : Int :=
  yearStart (index / 12) + daysBeforeMonth (isLeap (index / 12)) ((index % 12).toNat + 1)

theorem eq_of_floor {f : Int → Int} (hf : StrictMono f) {m n x : Int}
    (hm : f m ≤ x) (hm' : x < f (m + 1)) (hn : f n ≤ x) (hn' : x < f (n + 1)) : m = n := by
  have h1 : m < n + 1 := hf.lt_iff_lt.mp (by omega)
  have h2 : n < m + 1 := hf.lt_iff_lt.mp (by omega)
  omega

theorem yearStart_strictMono : StrictMono yearStart := by
  apply strictMono_int_of_lt_succ
  intro y
  rw [yearStart_succ]
  have : 0 < daysInYear y := by unfold daysInYear; split <;> decide
  omega

theorem daysBeforeMonth_succ : ∀ (leap : Bool) (k : Nat), k < 11 →
    daysBeforeMonth leap (k + 2) = daysBeforeMonth leap (k + 1) + monthLength leap (k + 1) := by
  decide

theorem monthLength_pos : ∀ (leap : Bool) (k : Nat), k < 12 → 28 ≤ monthLength leap (k + 1) := by
  decide

theorem month_mem_of_monthLength_pos {leap : Bool} {month : Nat} (h : 0 < monthLength leap month) :
    1 ≤ month ∧ month ≤ 12 := by
  unfold monthLength at h
  split at h <;> omega

theorem monthLength_le (leap : Bool) (month : Nat) : monthLength leap month ≤ 31 := by
  unfold monthLength
  split <;> try omega
  cases leap <;> decide

theorem daysBeforeMonth_december (year : Int) :
    daysBeforeMonth (isLeap year) 12 + monthLength (isLeap year) 12 = daysInYear year := by
  unfold daysInYear
  cases isLeap year <;> rfl

theorem monthStart_succ (i : Int) :
    monthStart (i + 1) = monthStart i + daysInMonth (i / 12) ((i % 12).toNat + 1) := by
  unfold monthStart daysInMonth
  by_cases h : i % 12 = 11
  · have hd : (i + 1) / 12 = i / 12 + 1 := by omega
    have hm : ((i + 1) % 12).toNat = 0 := by omega
    have h11 : (i % 12).toNat = 11 := by omega
    have hdec := daysBeforeMonth_december (i / 12)
    rw [hd, hm, h11, yearStart_succ]
    simp only [daysBeforeMonth, Nat.reduceAdd] at hdec ⊢
    omega
  · have hd : (i + 1) / 12 = i / 12 := by omega
    have hm : ((i + 1) % 12).toNat = (i % 12).toNat + 1 := by omega
    have hs := daysBeforeMonth_succ (isLeap (i / 12)) (i % 12).toNat (by omega)
    rw [hd, hm, hs]
    omega

theorem monthStart_strictMono : StrictMono monthStart := by
  apply strictMono_int_of_lt_succ
  intro i
  rw [monthStart_succ]
  have := monthLength_pos (isLeap (i / 12)) (i % 12).toNat (by omega)
  unfold daysInMonth
  omega

theorem monthStart_mul_twelve (year : Int) : monthStart (year * 12) = yearStart year := by
  have hd : year * 12 / 12 = year := by omega
  have hm : (year * 12 % 12).toNat = 0 := by omega
  rw [monthStart, hd, hm]
  simp [daysBeforeMonth]

namespace Date

theorem yearStart_year_le (d : Date) : yearStart d.year ≤ d.number := yearStart_yearOf_le d.number

theorem lt_yearStart_year (d : Date) : d.number < yearStart (d.year + 1) :=
  lt_yearStart_yearOf d.number

theorem year_le_of_le {d d' : Date} (h : d.number ≤ d'.number) : d.year ≤ d'.year := by
  have hle := d.yearStart_year_le
  have hlt := d'.lt_yearStart_year
  by_contra hyear
  have hmono := yearStart_strictMono.monotone (show d'.year + 1 ≤ d.year by omega)
  omega

theorem year_mem (d : Date) : firstYear ≤ d.year ∧ d.year ≤ lastYear := by
  have hfirst := Int.lt_of_le_of_lt d.first_le d.lt_yearStart_year
  have hlast := Int.lt_of_le_of_lt d.yearStart_year_le d.lt_end
  rw [yearStart_strictMono.lt_iff_lt] at hfirst hlast
  omega

theorem monthIndex_div (d : Date) : d.monthIndex / 12 = d.year := by
  have := d.month_mem
  change (d.year * 12 + (d.month - 1 : Nat)) / 12 = d.year
  omega

theorem monthIndex_mod (d : Date) : (d.monthIndex % 12).toNat + 1 = d.month := by
  have := d.month_mem
  change ((d.year * 12 + (d.month - 1 : Nat)) % 12).toNat + 1 = d.month
  omega

theorem number_eq_monthStart (d : Date) :
    d.number = monthStart d.monthIndex + (d.day - 1 : Nat) := by
  rw [monthStart, monthIndex_div, monthIndex_mod]
  exact d.number_eq

theorem monthStart_monthIndex_le (d : Date) : monthStart d.monthIndex ≤ d.number := by
  have := d.number_eq_monthStart
  omega

theorem lt_monthStart_monthIndex (d : Date) : d.number < monthStart (d.monthIndex + 1) := by
  have h := d.number_eq_monthStart
  have hb := d.civil_bounds
  rw [monthStart_succ, monthIndex_div, monthIndex_mod]
  omega

theorem monthIndex_eq_iff {d : Date} {m : Int} :
    d.monthIndex = m ↔ monthStart m ≤ d.number ∧ d.number < monthStart (m + 1) := by
  constructor
  · rintro rfl
    exact ⟨d.monthStart_monthIndex_le, d.lt_monthStart_monthIndex⟩
  · intro h
    obtain ⟨h, h'⟩ := h
    exact eq_of_floor monthStart_strictMono d.monthStart_monthIndex_le d.lt_monthStart_monthIndex
      h h'

theorem monthStart_le_iff {d : Date} {m : Int} : monthStart m ≤ d.number ↔ m ≤ d.monthIndex := by
  have h1 := d.monthStart_monthIndex_le
  have h2 := d.lt_monthStart_monthIndex
  constructor
  · intro h
    have : m < d.monthIndex + 1 := monthStart_strictMono.lt_iff_lt.mp (by omega)
    omega
  · intro h
    have := monthStart_strictMono.le_iff_le.mpr h
    omega

theorem monthIndex_eq_of_civil {d : Date} {y : Int} {m : Nat} (hm : 1 ≤ m) (hm' : m ≤ 12) :
    d.monthIndex = y * 12 + (m - 1 : Nat) ↔ d.year = y ∧ d.month = m := by
  have := d.month_mem
  change d.year * 12 + (d.month - 1 : Nat) = _ ↔ _
  omega

/-- The same month of a later year. -/
theorem monthIndex_eq_add_iff {d d' : Date} {n : Nat} :
    d'.monthIndex = d.monthIndex + 12 * n ↔ d'.year = d.year + n ∧ d'.month = d.month := by
  have h := d.month_mem
  have h' := d'.month_mem
  rw [(monthIndex_eq_of_civil h.1 h.2).mpr ⟨rfl, rfl⟩,
    (monthIndex_eq_of_civil h'.1 h'.2).mpr ⟨rfl, rfl⟩]
  omega

theorem number_of_ofCivil? {d : Date} {y : Int} {m k : Nat} (h : ofCivil? y m k = some d) :
    1 ≤ k ∧ k ≤ daysInMonth y m ∧
      d.number = yearStart y + daysBeforeMonth (isLeap y) m + (k - 1 : Nat) := by
  unfold ofCivil? at h
  split at h
  · next hk => exact ⟨hk.1, hk.2, number_ofNumber?.mp h⟩
  · cases h

/-- The date of a year, a month and a day has that year, that month and that day. -/
theorem civil_of_ofCivil? {d : Date} {y : Int} {m k : Nat} (h : ofCivil? y m k = some d) :
    d.year = y ∧ d.month = m ∧ d.day = k := by
  obtain ⟨hk, hk', hn⟩ := number_of_ofCivil? h
  have hm : 1 ≤ m ∧ m ≤ 12 := month_mem_of_monthLength_pos (Nat.lt_of_lt_of_le hk hk')
  have hdiv : (y * 12 + (m - 1 : Nat)) / 12 = y := by omega
  have hmod : ((y * 12 + (m - 1 : Nat)) % 12).toNat + 1 = m := by omega
  have hi : d.monthIndex = y * 12 + (m - 1 : Nat) := by
    rw [monthIndex_eq_iff, monthStart_succ, monthStart, hdiv, hmod]
    omega
  obtain ⟨rfl, rfl⟩ := (monthIndex_eq_of_civil hm.1 hm.2).mp hi
  have := d.number_eq
  have := d.civil_bounds
  exact ⟨rfl, rfl, by omega⟩

end Date

end Recurrence.Calendar
