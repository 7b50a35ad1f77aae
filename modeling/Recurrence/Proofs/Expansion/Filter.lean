import Recurrence.Proofs.Expansion.Days
import Recurrence.Proofs.Expansion.Plan

/-!
# The filters of a rule, said without a plan

`Rule.AllowsDate` and `Rule.AllowsTime` say which days and which times of day a rule allows, with
what it leaves open taken from its anchor. An ordinal weekday is found by counting the days of that
weekday; `allows_iff` shows that the division by weeks in `isNth` counts the same.
-/

namespace Recurrence

set_option autoImplicit false

open Calendar

/-- Whether the values hold a place, counted from the start or, if negative, from the end. -/
def HoldsPlace (values : OrderedSet Int) (place length : Nat) : Prop :=
  (place : Int) ∈ values ∨ (place : Int) - (length + 1) ∈ values

/-- Whether `d` is the n-th of its weekday among the days, counted from the end if `n` is
negative. -/
def IsNthWeekday (days : List Date) (d : Date) (n : Int) : Prop :=
  n = (days.countP fun e => e.weekday = d.weekday && e.number ≤ d.number : Nat) ∨
    -n = (days.countP fun e => e.weekday = d.weekday && d.number ≤ e.number : Nat)

def daysOfYear (year : Int) : List Date := Plan.run (yearStart year) (daysInYear year)

namespace Rule

/-- No part of the rule chooses days inside a month or a week. -/
def OpenDays (r : Rule) : Prop :=
  r.byYearDay.isEmpty = true ∧ r.byMonthDay.isEmpty = true ∧ r.byDay.isEmpty = true

/-- The days among which the rule counts weekdays. -/
def scope (r : Rule) (d : Date) : List Date :=
  if r.frequency = .monthly ∨ r.frequency = .yearly ∧ r.byMonth.isEmpty = false then
    Plan.daysOfMonth d.year d.month
  else daysOfYear d.year

structure AllowsDate (r : Rule) (anchor d : Date) : Prop where
  month : r.byMonth.isEmpty = true ∨ d.month ∈ r.byMonth
  yearDay : r.byYearDay.isEmpty = true ∨ HoldsPlace r.byYearDay d.yearDay (daysInYear d.year)
  monthDay : r.byMonthDay.isEmpty = true ∨
    HoldsPlace r.byMonthDay d.day (daysInMonth d.year d.month)
  weekday : r.byDay.isEmpty = true ∨ ∃ w ∈ r.byDay, w.weekday = d.weekday ∧
    ∀ n, w.ordinal = some n → IsNthWeekday (r.scope d) d n
  anchorMonth : r.OpenDays → r.frequency = .yearly → r.byMonth.isEmpty = true →
    d.month = anchor.month
  anchorDay : r.OpenDays → r.frequency = .yearly ∨ r.frequency = .monthly → d.day = anchor.day
  anchorWeekday : r.OpenDays → r.frequency = .weekly → d.weekday = anchor.weekday

structure AllowsTime (r : Rule) (anchor t : TimeOfDay) : Prop where
  hour : t.hour ∈ r.byHour ∨
    r.byHour.isEmpty = true ∧ (r.frequency.isSubDaily = true ∨ t.hour = anchor.hour)
  minute : t.minute ∈ r.byMinute ∨ r.byMinute.isEmpty = true ∧
    (r.frequency = .minutely ∨ r.frequency = .secondly ∨ t.minute = anchor.minute)
  second : t.second ∈ r.bySecond ∨
    r.bySecond.isEmpty = true ∧ (r.frequency = .secondly ∨ t.second = anchor.second)

end Rule

theorem weekday_eq_iff {a b : Date} : a.weekday = b.weekday ↔ a.number % 7 = b.number % 7 := by
  have ha := Weekday.fromMonday_ofMonday ((a.number + 5) % 7).toNat
  have hb := Weekday.fromMonday_ofMonday ((b.number + 5) % 7).toNat
  constructor
  · intro h
    have := congrArg Weekday.fromMonday h
    simp only [Date.weekday] at this
    omega
  · intro h
    apply Weekday.fromMonday_inj
    simp only [Date.weekday]
    omega

/-- The days of one weekday up to the one at place `k`, counted from 0. -/
theorem countP_range_upto (k n : Nat) :
    (List.range n).countP (fun a => a % 7 = k % 7 && a ≤ k) =
      if n ≤ k then (n + 6 - k % 7) / 7 else k / 7 + 1 := by
  induction n with
  | zero => simp; omega
  | succ n ih =>
    rw [List.range_succ, List.countP_append, ih, List.countP_singleton]
    simp only [Bool.and_eq_true, decide_eq_true_eq]
    split <;> split <;> split <;> omega

theorem countP_range_from (k n : Nat) :
    (List.range n).countP (fun a => a % 7 = k % 7 && k ≤ a) =
      if n ≤ k then 0 else (n - 1 - k) / 7 + 1 := by
  induction n with
  | zero => simp
  | succ n ih =>
    rw [List.range_succ, List.countP_append, ih, List.countP_singleton]
    simp only [Bool.and_eq_true, decide_eq_true_eq]
    split <;> split <;> split <;> omega

namespace Plan

theorem countP_run {start : Int} {length : Nat} (q : Int → Bool)
    (hs : yearStart firstYear ≤ start) (he : start + length ≤ yearStart (lastYear + 1)) :
    (run start length).countP (fun e => q e.number) =
      (List.range length).countP fun (a : Nat) => q (start + a) := by
  rw [run, List.countP_filterMap]
  apply List.countP_congr
  intro a ha
  have hlt := List.mem_range.mp ha
  have : Date.ofNumber? (start + a) = some ⟨start + a, by omega, by omega⟩ := by
    rw [Date.ofNumber?, dif_pos ⟨by omega, by omega⟩]
  simp [this]

/-- The division by weeks counts weekdays. -/
theorem isNth_iff {start : Int} {length k : Nat} {d : Date} {n : Int}
    (hs : yearStart firstYear ≤ start) (he : start + length ≤ yearStart (lastYear + 1))
    (hk : k < length) (hd : d.number = start + k) :
    isNth n (k + 1) length = true ↔ IsNthWeekday (run start length) d n := by
  have hup := countP_run (fun x => x % 7 = d.number % 7 && x ≤ d.number) hs he
  have hfrom := countP_run (fun x => x % 7 = d.number % 7 && d.number ≤ x) hs he
  have hmod : ∀ a : Nat, (start + (a : Int)) % 7 = d.number % 7 ↔ a % 7 = k % 7 := by
    intro a
    omega
  have hle : ∀ a : Nat, start + (a : Int) ≤ d.number ↔ a ≤ k := by
    intro a
    omega
  have hge : ∀ a : Nat, d.number ≤ start + (a : Int) ↔ k ≤ a := by
    intro a
    omega
  simp only [hmod, hle, countP_range_upto, if_neg (Nat.not_le.mpr hk)] at hup
  simp only [hmod, hge, countP_range_from, if_neg (Nat.not_le.mpr hk)] at hfrom
  simp only [IsNthWeekday, weekday_eq_iff, hup, hfrom, isNth]
  split
  · omega
  · split
    · simp only [decide_eq_true_eq]
      omega
    · split <;> simp <;> omega

theorem isNth_month_iff {d : Date} {n : Int} :
    isNth n d.day (daysInMonth d.year d.month) = true ↔
      IsNthWeekday (daysOfMonth d.year d.month) d n := by
  have hb := d.civil_bounds
  have hm := d.month_mem
  have hi : d.monthIndex = d.year * 12 + (d.month - 1 : Nat) :=
    (Date.monthIndex_eq_of_civil hm.1 hm.2).mpr ⟨rfl, rfl⟩
  have hsucc := monthStart_succ d.monthIndex
  have hfirst := d.first_le
  have hlast := d.lt_end
  rw [← monthStart_mul_twelve] at hfirst hlast
  have hlow := monthStart_strictMono.le_iff_le.mpr (Date.monthStart_le_iff.mp hfirst)
  have hhigh : d.monthIndex < (lastYear + 1) * 12 := by
    have := Date.monthStart_le_iff (d := d) (m := (lastYear + 1) * 12)
    omega
  have hhigh := monthStart_strictMono.le_iff_le.mpr (show d.monthIndex + 1 ≤ _ from hhigh)
  rw [monthStart_mul_twelve] at hlow hhigh
  rw [Date.monthIndex_div, Date.monthIndex_mod] at hsucc
  rw [daysOfMonth_eq_run hm.1 hm.2, ← hi]
  have hk : isNth n (d.day - 1 + 1) (daysInMonth d.year d.month) = true ↔ _ :=
    isNth_iff hlow (by omega) (by omega) d.number_eq_monthStart
  rwa [Nat.sub_add_cancel hb.1] at hk

theorem isNth_year_iff {d : Date} {n : Int} :
    isNth n d.yearDay (daysInYear d.year) = true ↔ IsNthWeekday (daysOfYear d.year) d n := by
  have hlow := d.yearStart_year_le
  have hhigh := d.lt_yearStart_year
  have hsucc := yearStart_succ d.year
  have h1 := yearStart_strictMono.le_iff_le.mpr d.year_mem.1
  have h2 := yearStart_strictMono.le_iff_le.mpr (Int.add_le_add_right d.year_mem.2 1)
  exact isNth_iff (k := (d.number - yearStart d.year).toNat) h1 (by omega) (by omega) (by omega)

variable {rule : Rule} {anchor : Timestamp} {c : Cadence} {d : Date}

theorem isNthDay_iff {n : Int} :
    (filled rule anchor c).isNthDay d n = true ↔ IsNthWeekday (rule.scope d) d n := by
  have hscope : (filled rule anchor c).ordinalInMonth = true ↔
      (rule.frequency = .monthly ∨ rule.frequency = .yearly ∧ rule.byMonth.isEmpty = false) := by
    simp [filled]
  simp only [isNthDay, Rule.scope]
  split
  · next h =>
    rw [if_pos (hscope.mp h)]
    exact isNth_month_iff
  · next h =>
    rw [if_neg (mt hscope.mpr h)]
    exact isNth_year_iff

theorem any_place?_iff {values : OrderedSet Int} {place length : Nat} (h1 : 1 ≤ place)
    (h2 : place ≤ length) :
    (values.toList.any fun n => place? n length = some place) = true ↔
      HoldsPlace values place length := by
  simp only [List.any_eq_true, decide_eq_true_eq, place?_eq_some_iff, h1, h2, true_and]
  constructor
  · intro h
    rcases h with ⟨n, hn, rfl | rfl⟩
    · exact Or.inl hn
    · exact Or.inr hn
  · rintro (h | h)
    · exact ⟨_, h, Or.inl rfl⟩
    · exact ⟨_, h, Or.inr rfl⟩

instance : Decidable rule.OpenDays := by
  unfold Rule.OpenDays
  infer_instance

theorem byMonth_filled : (filled rule anchor c).byMonth =
    if rule.OpenDays ∧ rule.frequency = .yearly ∧ rule.byMonth.isEmpty = true then
      .singleton anchor.date.month
    else rule.byMonth := by
  simp only [filled, Bool.and_eq_true, decide_eq_true_eq, Rule.OpenDays, and_assoc]
  rfl

theorem byMonthDay_filled : (filled rule anchor c).byMonthDay =
    if rule.OpenDays ∧ (rule.frequency = .yearly ∨ rule.frequency = .monthly) then
      .singleton (anchor.date.day : Int)
    else rule.byMonthDay := by
  simp only [filled, Bool.and_eq_true, Bool.or_eq_true, decide_eq_true_eq, Rule.OpenDays, and_assoc]
  rfl

theorem byDay_filled : (filled rule anchor c).byDay =
    if rule.OpenDays ∧ rule.frequency = .weekly then .singleton (.every anchor.date.weekday)
    else rule.byDay := by
  simp only [filled, Bool.and_eq_true, decide_eq_true_eq, Rule.OpenDays, and_assoc]

theorem allowsMonth_iff : (filled rule anchor c).allowsMonth d = true ↔
    (rule.byMonth.isEmpty = true ∨ d.month ∈ rule.byMonth) ∧
      (rule.OpenDays → rule.frequency = .yearly → rule.byMonth.isEmpty = true →
        d.month = anchor.date.month) := by
  rw [allowsMonth, byMonth_filled]
  split
  · next h =>
    have he := OrderedSet.isEmpty_iff.mp h.2.2
    simp [h, he, OrderedSet.isEmpty, eq_comm (a := d.month)]
  · next h =>
    simp only [Bool.or_eq_true, List.any_eq_true, decide_eq_true_eq, exists_eq_right,
      OrderedSet.mem_toList]
    constructor
    · intro hm
      exact ⟨hm, fun ho hf he => absurd ⟨ho, hf, he⟩ h⟩
    · exact And.left

theorem allowsYearDay_iff : (filled rule anchor c).allowsYearDay d = true ↔
    rule.byYearDay.isEmpty = true ∨ HoldsPlace rule.byYearDay d.yearDay (daysInYear d.year) := by
  have hd := d.dayOfYear_lt
  have hy : d.yearDay = (d.number - yearStart (yearOf d.number)).toNat + 1 := rfl
  rw [← any_place?_iff (by omega) (by rw [hy]; exact hd), ← Bool.or_eq_true]
  rfl

theorem allowsMonthDay_iff : (filled rule anchor c).allowsMonthDay d = true ↔
    (rule.byMonthDay.isEmpty = true ∨
      HoldsPlace rule.byMonthDay d.day (daysInMonth d.year d.month)) ∧
      (rule.OpenDays → rule.frequency = .yearly ∨ rule.frequency = .monthly →
        d.day = anchor.date.day) := by
  have hd := d.civil_bounds
  have hp : (filled rule anchor c).allowsMonthDay d = true ↔
      (filled rule anchor c).byMonthDay.isEmpty = true ∨
        HoldsPlace (filled rule anchor c).byMonthDay d.day (daysInMonth d.year d.month) := by
    rw [← any_place?_iff hd.1 hd.2.1, ← Bool.or_eq_true]
    rfl
  rw [hp, byMonthDay_filled]
  split
  · next h =>
    have ha := anchor.date.civil_bounds
    have hh : HoldsPlace (.singleton (anchor.date.day : Int)) d.day (daysInMonth d.year d.month) ↔
        d.day = anchor.date.day := by
      simp only [HoldsPlace, ← OrderedSet.mem_toList, OrderedSet.toList_singleton,
        List.mem_singleton]
      omega
    simp only [hh, h.2, h.1, h.1.2.1]
    simp [OrderedSet.isEmpty]
  · next h =>
    constructor
    · intro hm
      exact ⟨hm, fun ho hf => absurd ⟨ho, hf⟩ h⟩
    · exact And.left

theorem allowsWeekday_iff : (filled rule anchor c).allowsWeekday d = true ↔
    (rule.byDay.isEmpty = true ∨ ∃ w ∈ rule.byDay, w.weekday = d.weekday ∧
      ∀ n, w.ordinal = some n → IsNthWeekday (rule.scope d) d n) ∧
      (rule.OpenDays → rule.frequency = .weekly → d.weekday = anchor.date.weekday) := by
  rw [allowsWeekday, byDay_filled]
  split
  · next h =>
    simp only [h.1, h.1.2.2, h.2]
    simp [OrderedSet.isEmpty, NthWeekday.every, eq_comm (a := d.weekday)]
  · next h =>
    simp only [Bool.or_eq_true, List.any_eq_true, Bool.and_eq_true, decide_eq_true_eq,
      Option.all_eq_true, isNthDay_iff, OrderedSet.mem_toList]
    constructor
    · intro hm
      exact ⟨hm, fun ho hf => absurd ⟨ho, hf⟩ h⟩
    · exact And.left

/-- A plan allows the days that its rule allows. -/
theorem allows_iff :
    (filled rule anchor c).allows d = true ↔ rule.AllowsDate anchor.date d := by
  simp only [allows, Bool.and_eq_true, allowsMonth_iff, allowsYearDay_iff, allowsMonthDay_iff,
    allowsWeekday_iff]
  constructor
  · intro h
    obtain ⟨⟨⟨⟨h1, h2⟩, h3⟩, h4, h5⟩, h6, h7⟩ := h
    exact ⟨h1, h3, h4, h6, h2, h5, h7⟩
  · intro h
    obtain ⟨h1, h3, h4, h6, h2, h5, h7⟩ := h
    exact ⟨⟨⟨⟨h1, h2⟩, h3⟩, h4, h5⟩, h6, h7⟩

end Plan

end Recurrence
