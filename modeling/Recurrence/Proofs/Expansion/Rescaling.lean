import Recurrence.Proofs.Calendar.Form
import Recurrence.Proofs.Expansion.Occurs

/-!
# Rules in shorter periods

A rule that leaves all times of day to its anchor occurs every so many days, hours, minutes or
seconds; one that leaves the day to its anchor occurs every so many weeks or years, which are as
many times seven days or twelve months. In the shorter periods it lists the same times
(`expand_rescaled`).
-/

namespace Recurrence

set_option autoImplicit false

open Calendar

/-- Equal quotients and equal remainders, `k` units to a day. -/
theorem div_mod_iff {u k n a b i : Nat} (hu : u * k = 86400) :
    b / u = a / u + i * (k * n) ∧ b % u = a % u ↔ b = a + i * (86400 * n) := by
  have hpos : 0 < u := by
    apply Nat.pos_of_ne_zero
    rintro rfl
    omega
  have hstep : i * (86400 * n) = u * (i * (k * n)) := by
    rw [← hu]
    ring
  have ha := Nat.div_add_mod a u
  have hb := Nat.div_add_mod b u
  rw [hstep]
  constructor
  · intro h
    obtain ⟨hq, hr⟩ := h
    rw [hq, hr, Nat.mul_add] at hb
    omega
  · rintro rfl
    exact ⟨Nat.add_mul_div_left a _ hpos, Nat.add_mul_mod_self_left a u _⟩

namespace Rule

variable {r : Rule} {anchor t : Timestamp} {f : Frequency} {k u n : Nat} {day : Weekday}

/-- No part of the rule names a time of day. -/
def OpenTimes (r : Rule) : Prop :=
  r.byHour.isEmpty = true ∧ r.byMinute.isEmpty = true ∧ r.bySecond.isEmpty = true

/-- Then the anchor names the time inside a period. -/
theorem allowsTime_iff_of_perDay (ho : r.OpenTimes) (hk : r.frequency.perDay? = some k)
    (hu : u * k = 86400) :
    r.AllowsTime anchor.time t.time ↔ t.seconds % u = anchor.seconds % u := by
  obtain ⟨hh, hm, hs⟩ := ho
  have htime : r.AllowsTime anchor.time t.time ↔
      (r.frequency.isSubDaily = true ∨ t.time.hour = anchor.time.hour) ∧
      (r.frequency = .minutely ∨ r.frequency = .secondly ∨
        t.time.minute = anchor.time.minute) ∧
      (r.frequency = .secondly ∨ t.time.second = anchor.time.second) := by
    have hh' := OrderedSet.not_mem_of_isEmpty hh
    have hm' := OrderedSet.not_mem_of_isEmpty hm
    have hs' := OrderedSet.not_mem_of_isEmpty hs
    constructor
    · intro h
      obtain ⟨h1, h2, h3⟩ := h
      exact ⟨(h1.resolve_left (hh' _)).2, (h2.resolve_left (hm' _)).2,
        (h3.resolve_left (hs' _)).2⟩
    · intro h
      obtain ⟨h1, h2, h3⟩ := h
      exact ⟨Or.inr ⟨hh, h1⟩, Or.inr ⟨hm, h2⟩, Or.inr ⟨hs, h3⟩⟩
  have ha := anchor.seconds_mod
  have ht := t.seconds_mod
  rw [htime]
  -- in each frequency, the parts of the clock that are compared make up the time inside a period
  unfold TimeOfDay.hour TimeOfDay.minute TimeOfDay.second
  rcases Frequency.unit_cases hk hu with ⟨hf, rfl⟩ | ⟨hf, rfl⟩ | ⟨hf, rfl⟩ | ⟨hf, rfl⟩ <;>
    simp only [hf, Frequency.isSubDaily, reduceCtorEq, Bool.false_eq_true, true_or, false_or,
      true_and, true_iff] <;>
    omega

/-- A rule that recurs every `n` days at the time of its anchor, in whatever periods. -/
theorem occurs_withPeriods_iff (ho : r.OpenTimes) (hk : f.perDay? = some k) (hn : n ≠ 0) :
    (r.withPeriods f (k * n) day).Occurs anchor t ↔ t.nano = 0 ∧
      (∃ i : Nat, t.seconds = anchor.seconds + i * (86400 * n)) ∧
      r.PartsAllow (daysOfYear t.date.year) t.date := by
  obtain ⟨u, hu⟩ := Frequency.exists_unit hk
  have hi : k * n ≠ 0 := by
    rw [Nat.mul_ne_zero_iff]
    refine ⟨?_, hn⟩
    rintro rfl
    omega
  have hk' : (r.withPeriods f (k * n) day).frequency.perDay? = some k := hk
  have htime : (r.withPeriods f (k * n) day).AllowsTime anchor.time t.time ↔ _ :=
    allowsTime_iff_of_perDay ho hk' hu
  have hdate : (r.withPeriods f (k * n) day).AllowsDate anchor.date t.date ↔
      r.PartsAllow (daysOfYear t.date.year) t.date := allowsDate_iff_of_perDay hk'
  constructor
  · intro h
    obtain ⟨hnano, hin, hd, ht⟩ := h
    obtain ⟨i, hi⟩ := (Plan.inPeriod_iff_of_perDay hk' hu hi hnano).mp hin
    exact ⟨hnano, ⟨i, (div_mod_iff hu).mp ⟨hi, htime.mp ht⟩⟩, hdate.mp hd⟩
  · intro h
    obtain ⟨hnano, ⟨i, hsec⟩, hd⟩ := h
    obtain ⟨hq, hr⟩ := (div_mod_iff hu).mpr hsec
    exact ⟨hnano, (Plan.inPeriod_iff_of_perDay hk' hu hi hnano).mpr ⟨i, hq⟩, hdate.mpr hd,
      htime.mpr hr⟩

/-- Seven times as many days as weeks. -/
theorem occurs_weekly_iff_daily (hv : r.Valid) (hf : r.frequency = .weekly)
    (hd : r.byDay.isEmpty = true) (ha : 0 ≤ anchor.date.year) :
    r.Occurs anchor t ↔ (r.withPeriods .daily (7 * r.interval) day).Occurs anchor t := by
  have hopen : r.OpenDays := ⟨hv.yearDay_isEmpty (by rw [hf]; rfl),
    hv.monthDay_scope.resolve_right (not_not.mpr hf), hd⟩
  have hi : 7 * r.interval ≠ 0 := Nat.mul_ne_zero (by decide) hv.interval_pos
  have htime : r.AllowsTime anchor.time t.time ↔
      (r.withPeriods .daily (7 * r.interval) day).AllowsTime anchor.time t.time :=
    allowsTime_congr (by rw [hf]; rfl) rfl rfl rfl rfl
  have hdate : r.AllowsDate anchor.date t.date ↔
      r.PartsAllow (daysOfYear t.date.year) t.date ∧
        (r.OpenDays → t.date.number % 7 = anchor.date.number % 7) := by
    rw [allowsDate_iff_weekly hf, weekday_eq_iff]
  have hdate' : (r.withPeriods .daily (7 * r.interval) day).AllowsDate anchor.date t.date ↔
      r.PartsAllow (daysOfYear t.date.year) t.date := allowsDate_iff_of_perDay rfl
  have hseven (i : Nat) : i * (7 * r.interval) = 7 * (i * r.interval) := by ring
  obtain ⟨first, hle, hlt, hin⟩ := Plan.inPeriod_iff_weekly hf hv.interval_pos ha
  constructor
  · intro h
    obtain ⟨hn, hp, ha, ht⟩ := h
    obtain ⟨i, h⟩ := (hin t hn).mp hp
    obtain ⟨hparts, hday⟩ := hdate.mp ha
    have hday := hday hopen
    -- a week holds the weekday of the anchor once, as many weeks later as the anchor's own week
    refine ⟨hn, (Plan.inPeriod_iff_daily rfl hi hn).mpr ⟨i, ?_⟩, hdate'.mpr hparts, htime.mp ht⟩
    rw [withPeriods, hseven]
    omega
  · intro h
    obtain ⟨hn, hp, ha, ht⟩ := h
    obtain ⟨i, h⟩ := (Plan.inPeriod_iff_daily rfl hi hn).mp hp
    rw [withPeriods, hseven] at h
    exact ⟨hn, (hin t hn).mpr ⟨i, by omega⟩, hdate.mpr ⟨hdate'.mp ha, fun _ => by omega⟩,
      htime.mpr ht⟩

theorem hasDateFilter_eq_false_iff :
    r.hasDateFilter = false ↔ r.byMonth.isEmpty = true ∧ r.OpenDays := by
  simp [hasDateFilter, OpenDays, and_assoc]

/-- Twelve times as many months as years. -/
theorem occurs_yearly_iff_monthly (hv : r.Valid) (hf : r.frequency = .yearly)
    (hd : r.hasDateFilter = false) :
    r.Occurs anchor t ↔ (r.withPeriods .monthly (12 * r.interval) day).Occurs anchor t := by
  obtain ⟨hm, hopen⟩ := hasDateFilter_eq_false_iff.mp hd
  have hparts (days : List Date) : r.PartsAllow days t.date :=
    ⟨Or.inl hm, Or.inl hopen.1, Or.inl hopen.2.1, Or.inl hopen.2.2⟩
  have hi : 12 * r.interval ≠ 0 := Nat.mul_ne_zero (by decide) hv.interval_pos
  have htime : r.AllowsTime anchor.time t.time ↔
      (r.withPeriods .monthly (12 * r.interval) day).AllowsTime anchor.time t.time :=
    allowsTime_congr (by rw [hf]; rfl) rfl rfl rfl rfl
  have hdate : r.AllowsDate anchor.date t.date ↔
      t.date.month = anchor.date.month ∧ t.date.day = anchor.date.day := by
    rw [allowsDate_iff_yearly hf]
    exact ⟨fun h => ⟨(h.2 hopen).1 hm, (h.2 hopen).2⟩,
      fun h => ⟨hparts _, fun _ => ⟨fun _ => h.1, h.2⟩⟩⟩
  have hdate' : (r.withPeriods .monthly (12 * r.interval) day).AllowsDate anchor.date t.date ↔
      t.date.day = anchor.date.day := by
    rw [allowsDate_iff_monthly rfl]
    exact ⟨fun h => h.2 hopen, fun h => ⟨hparts _, fun _ => h⟩⟩
  have htwelve (i : Nat) : (i : Int) * (12 * r.interval : Nat) = 12 * (i * r.interval : Nat) := by
    push_cast
    ring
  constructor
  · intro h
    obtain ⟨hn, hp, ha, ht⟩ := h
    obtain ⟨i, h⟩ := (Plan.inPeriod_iff_yearly hf hv.interval_pos hn).mp hp
    obtain ⟨hmonth, hday⟩ := hdate.mp ha
    refine ⟨hn, (Plan.inPeriod_iff_monthly rfl hi hn).mpr ⟨i, ?_⟩, hdate'.mpr hday, htime.mp ht⟩
    rw [withPeriods, htwelve]
    exact Date.monthIndex_eq_add_iff.mpr ⟨by push_cast; exact h, hmonth⟩
  · intro h
    obtain ⟨hn, hp, ha, ht⟩ := h
    obtain ⟨i, h⟩ := (Plan.inPeriod_iff_monthly rfl hi hn).mp hp
    rw [withPeriods, htwelve] at h
    obtain ⟨hyear, hmonth⟩ := Date.monthIndex_eq_add_iff.mp h
    push_cast at hyear
    exact ⟨hn, (Plan.inPeriod_iff_yearly hf hv.interval_pos hn).mpr ⟨i, hyear⟩,
      hdate.mpr ⟨hmonth, hdate'.mp ha⟩, htime.mpr ht⟩

end Rule

/-- The same times in shorter periods: days, hours, minutes or seconds if all times of day are left
open, days for weeks if the weekday is, and months for years if the date is. -/
theorem expand_rescaled (r : Rule) (w : Window) (day day' : Weekday) (hv : r.Valid)
    (hpos : r.byPosition.isEmpty = true) (ha : (r.anchor.getD w.after).Plain)
    (hb : w.before.Plain) :
    (r.frequency = .daily → r.OpenTimes → ∀ f f' k k', f.perDay? = some k →
      f'.perDay? = some k' → (r.withPeriods f (k * r.interval) day).SameTimes
        (r.withPeriods f' (k' * r.interval) day') w) ∧
    (r.frequency = .weekly → r.byDay.isEmpty = true →
      r.SameTimes (r.withPeriods .daily (7 * r.interval) day) w) ∧
    (r.frequency = .yearly → r.hasDateFilter = false →
      r.SameTimes (r.withPeriods .monthly (12 * r.interval) day) w) := by
  refine ⟨?_, ?_, ?_⟩
  · intro hf ho f f' k k' hk hk'
    have hvalid {f : Frequency} {k : Nat} (hk : f.perDay? = some k) (day : Weekday) :
        (r.withPeriods f (k * r.interval) day).Valid := by
      apply hv.withPeriods_of_days hpos (Or.inl hf) (Nat.mul_ne_zero ?_ hv.interval_pos)
      · rintro rfl
        cases hk
      · rintro rfl
        cases f <;> cases hk
    apply Rule.sameTimes_of_occurs (hvalid hk day) (hvalid hk' day') hpos hpos ⟨rfl, rfl, rfl⟩
      ha.year_nonneg hb.year_le
    intro t _ _
    exact (Rule.occurs_withPeriods_iff ho hk hv.interval_pos).trans
      (Rule.occurs_withPeriods_iff ho hk' hv.interval_pos).symm
  · intro hf hd
    have hi : 7 * r.interval ≠ 0 := Nat.mul_ne_zero (by decide) hv.interval_pos
    have hv' := hv.withPeriods_of_days hpos (Or.inr hf) hi (by decide : Frequency.daily ≠ _) day
    apply Rule.sameTimes_of_occurs hv hv' hpos hpos ⟨rfl, rfl, rfl⟩ ha.year_nonneg hb.year_le
    intro t _ _
    exact Rule.occurs_weekly_iff_daily hv hf hd ha.year_nonneg
  · intro hf hd
    have hi : 12 * r.interval ≠ 0 := Nat.mul_ne_zero (by decide) hv.interval_pos
    have hyear : r.byYearDay.isEmpty = true := (Rule.hasDateFilter_eq_false_iff.mp hd).2.1
    have hv' : (r.withPeriods .monthly (12 * r.interval) day).Valid :=
      hv.withPeriods hpos hi (fun _ => rfl) (Or.inl hyear) (Or.inr (by decide)) day
    apply Rule.sameTimes_of_occurs hv hv' hpos hpos ⟨rfl, rfl, rfl⟩ ha.year_nonneg hb.year_le
    intro t _ _
    exact Rule.occurs_yearly_iff_monthly hv hf hd

/-- Every third day, if it is a Monday. -/
def thirdMondays : Rule :=
  { frequency := .daily, interval := 3, byDay := .singleton (.every .monday) }

def otherWeeks : Rule := { frequency := .weekly, interval := 2, weekStart := .thursday }

def otherYears : Rule := { frequency := .yearly, interval := 2 }

/-- The five years from 2024 on. -/
def fiveYears : Window :=
  ⟨newYear, .startOfDay ⟨yearStart 2029, by decide, by decide⟩, by decide⟩

theorem expand_rescaled_thirdMondays :
    (thirdMondays.Valid ∧ thirdMondays.OpenTimes ∧ newYear.Plain ∧ earlyDays.before.Plain ∧
      ∃ found found',
        (thirdMondays.withPeriods .daily 3 .monday).expand earlyDays 10 none = .ok found ∧
        (thirdMondays.withPeriods .secondly 259200 .monday).expand earlyDays 10 none =
          .ok found' ∧
        found.length = 3 ∧ found.map Occurrence.time = found'.map Occurrence.time) ∧
    (otherWeeks.Valid ∧ ∃ found found', otherWeeks.expand earlyDays 10 none = .ok found ∧
      (otherWeeks.withPeriods .daily 14 .monday).expand earlyDays 10 none = .ok found' ∧
      found.length = 5 ∧ found.map Occurrence.time = found'.map Occurrence.time) ∧
    (otherYears.Valid ∧ fiveYears.before.Plain ∧
      ∃ found found', otherYears.expand fiveYears 10 none = .ok found ∧
        (otherYears.withPeriods .monthly 24 .monday).expand fiveYears 10 none = .ok found' ∧
        found.length = 3 ∧ found.map Occurrence.time = found'.map Occurrence.time) := by
  have hd : thirdMondays.Valid := by decide
  have hw : otherWeeks.Valid := by decide
  have hy : otherYears.Valid := by decide
  have ha : newYear.Plain := by decide
  have hb : earlyDays.before.Plain := by decide
  have hb' : fiveYears.before.Plain := by decide
  refine ⟨⟨hd, ⟨rfl, rfl, rfl⟩, ha, hb, _, _, rfl, rfl, rfl, ?_⟩, ⟨hw, _, _, rfl, rfl, rfl, ?_⟩,
    ⟨hy, hb', _, _, rfl, rfl, rfl, ?_⟩⟩
  · exact (expand_rescaled thirdMondays earlyDays .monday .monday hd rfl ha hb).1 rfl
      ⟨rfl, rfl, rfl⟩ .daily .secondly 1 86400 rfl rfl 10 10 _ _ rfl rfl
  · exact (expand_rescaled otherWeeks earlyDays .monday .monday hw rfl ha hb).2.1 rfl rfl
      10 10 _ _ rfl rfl
  · exact (expand_rescaled otherYears fiveYears .monday .monday hy rfl ha hb').2.2 rfl rfl
      10 10 _ _ rfl rfl

end Recurrence
