import Recurrence.Proofs.Calendar.Form
import Recurrence.Proofs.Expansion.Occurs

/-!
# Periods without gaps

If a rule leaves out no period, its periods cover all of the calendar from its anchor on. Only its
filters tell then when it occurs, and days may be grouped into other periods (`expand_regrouped`).
-/

namespace Recurrence

set_option autoImplicit false

open Calendar

namespace Plan

variable {rule : Rule} {anchor t : Timestamp}

/-- Periods without gaps hold every time from the anchor on. -/
theorem inPeriod_of_interval_one (hi : rule.interval = 1) (ha : 0 ≤ anchor.date.year)
    (ht : t.nano = 0) (hle : anchor ≤ t) : rule.InPeriod anchor t := by
  have hi0 : rule.interval ≠ 0 := by
    rw [hi]
    exact Nat.one_ne_zero
  have hdate := Timestamp.date_le_of_le hle
  have hday (k : Nat) (hk : rule.frequency.perDay? = some k) : rule.InPeriod anchor t := by
    obtain ⟨u, hu⟩ := Frequency.exists_unit hk
    have hdiv : anchor.seconds / u ≤ t.seconds / u :=
      Nat.div_le_div_right (Timestamp.seconds_le_of_le hle)
    rw [inPeriod_iff_of_perDay hk hu hi0 ht]
    exact ⟨t.seconds / u - anchor.seconds / u, by rw [hi]; omega⟩
  cases hf : rule.frequency with
  | secondly => exact hday 86400 (by rw [hf]; rfl)
  | minutely => exact hday 1440 (by rw [hf]; rfl)
  | hourly => exact hday 24 (by rw [hf]; rfl)
  | daily => exact hday 1 (by rw [hf]; rfl)
  | weekly =>
    obtain ⟨first, hfirst, -, hin⟩ := inPeriod_iff_weekly hf hi0 ha
    rw [hin t ht, hi]
    exact ⟨((t.date.number - first) / 7).toNat, by omega, by omega⟩
  | monthly =>
    have hmonth : anchor.date.monthIndex ≤ t.date.monthIndex := by
      rw [← Date.monthStart_le_iff]
      exact anchor.date.monthStart_monthIndex_le.trans hdate
    rw [inPeriod_iff_monthly hf hi0 ht, hi]
    exact ⟨(t.date.monthIndex - anchor.date.monthIndex).toNat, by omega⟩
  | yearly =>
    have hyear := Date.year_le_of_le hdate
    rw [inPeriod_iff_yearly hf hi0 ht, hi]
    exact ⟨(t.date.year - anchor.date.year).toNat, by omega⟩

end Plan

namespace Rule

variable {r r' : Rule} {w : Window} {anchor d : Date} {day : Weekday}

/-- Without gaps between periods, the filters decide. -/
theorem sameTimes_of_allows (hv : r.Valid) (hv' : r'.Valid) (hpos : r.byPosition.isEmpty = true)
    (hpos' : r'.byPosition.isEmpty = true) (hspan : r.SameSpan r')
    (ha : 0 ≤ (r.anchor.getD w.after).date.year) (hb : w.before.date.year ≤ 9999)
    (hi : r.interval = 1) (hi' : r'.interval = 1)
    (hdate : ∀ anchor d, r.AllowsDate anchor d ↔ r'.AllowsDate anchor d)
    (htime : ∀ (anchor : Timestamp) u,
      r.AllowsTime anchor.time u ↔ r'.AllowsTime anchor.time u) : r.SameTimes r' w := by
  apply sameTimes_of_occurs hv hv' hpos hpos' hspan ha hb
  intro t hn hle
  constructor
  · intro h
    obtain ⟨_, _, hd, ht⟩ := h
    exact ⟨hn, Plan.inPeriod_of_interval_one hi' ha hn hle, (hdate _ _).mp hd, (htime _ _).mp ht⟩
  · intro h
    obtain ⟨_, _, hd, ht⟩ := h
    exact ⟨hn, Plan.inPeriod_of_interval_one hi ha hn hle, (hdate _ _).mpr hd,
      (htime _ _).mpr ht⟩

def allMonths : OrderedSet Nat := .ofList (List.range' 1 12)

/-- The rule with all months of the year listed. -/
def inAllMonths (r : Rule) : Rule := { r with byMonth := allMonths }

theorem Valid.inAllMonths (hv : r.Valid) (hpos : r.byPosition.isEmpty = true) :
    r.inAllMonths.Valid := by
  have hmonths : ∀ n ∈ integers allMonths, Bounds.month.Holds n := by decide
  cases hv
  constructor
  case month_mem => exact hmonths
  case position_scope => exact Or.inl hpos
  all_goals assumption

theorem month_mem_allMonths (d : Date) : d.month ∈ allMonths := by
  have hm := d.month_mem
  rw [allMonths, OrderedSet.mem_ofList, List.mem_range'_1]
  omega

/-- With months listed, a year counts weekdays in the month, as a month does. -/
theorem allowsDate_monthly_iff_yearly (hf : r.frequency = .monthly)
    (hm : r.byMonth.isEmpty = true) : r.AllowsDate anchor d ↔
      ((r.withPeriods .yearly 1 day).inAllMonths).AllowsDate anchor d := by
  have hscope : ((r.withPeriods .yearly 1 day).inAllMonths).scope d =
      Plan.daysOfMonth d.year d.month := if_pos (Or.inr ⟨rfl, rfl⟩)
  rw [allowsDate_iff_monthly hf, allowsDate_iff_yearly rfl, hscope]
  constructor
  · intro h
    obtain ⟨⟨_, hyear, hday, hweek⟩, hopen⟩ := h
    exact ⟨⟨Or.inr (month_mem_allMonths d), hyear, hday, hweek⟩, fun ho => ⟨nofun, hopen ho⟩⟩
  · intro h
    obtain ⟨⟨_, hyear, hday, hweek⟩, hopen⟩ := h
    exact ⟨⟨Or.inl hm, hyear, hday, hweek⟩, fun ho => (hopen ho).2⟩

end Rule

/-- If every period counts, it does not matter on which day weeks begin, whether listed weekdays are
sought in weeks or in days, nor whether months are grouped into years. -/
theorem expand_regrouped (r : Rule) (w : Window) (day : Weekday) (hv : r.Valid)
    (hi : r.interval = 1) (hpos : r.byPosition.isEmpty = true)
    (ha : (r.anchor.getD w.after).Plain) (hb : w.before.Plain) :
    (r.frequency = .weekly → r.SameTimes (r.withPeriods .weekly 1 day) w) ∧
    (r.frequency = .weekly → r.byDay.isEmpty = false →
      r.SameTimes (r.withPeriods .daily 1 day) w) ∧
    (r.frequency = .monthly → r.byMonth.isEmpty = true →
      r.SameTimes (r.withPeriods .yearly 1 day).inAllMonths w) := by
  refine ⟨?_, ?_, ?_⟩
  · intro hf
    have hv' : (r.withPeriods .weekly 1 day).Valid :=
      hv.withPeriods hpos Nat.one_ne_zero (fun h => hf ▸ hv.ordinal_scope h)
        (hf ▸ hv.yearDay_scope) (hf ▸ hv.monthDay_scope) day
    apply Rule.sameTimes_of_allows hv hv' hpos hpos ⟨rfl, rfl, rfl⟩ ha.year_nonneg hb.year_le hi rfl
    · intro anchor d
      rw [Rule.allowsDate_iff_weekly hf, Rule.allowsDate_iff_weekly rfl]
      rfl
    · intro anchor u
      exact Rule.allowsTime_congr (by rw [hf]; rfl) rfl rfl rfl rfl
  · intro hf hd
    have hclosed : ¬ r.OpenDays := by
      intro ho
      rw [ho.2.2] at hd
      cases hd
    have hv' := hv.withPeriods_of_days hpos (Or.inr hf) Nat.one_ne_zero
      (by decide : Frequency.daily ≠ _) day
    apply Rule.sameTimes_of_allows hv hv' hpos hpos ⟨rfl, rfl, rfl⟩ ha.year_nonneg hb.year_le hi rfl
    · intro anchor d
      rw [Rule.allowsDate_iff_weekly hf, Rule.allowsDate_iff_of_perDay (k := 1) rfl]
      exact and_iff_left fun ho => absurd ho hclosed
    · intro anchor u
      exact Rule.allowsTime_congr (by rw [hf]; rfl) rfl rfl rfl rfl
  · intro hf hm
    have hyear : r.byYearDay.isEmpty = true := hv.yearDay_isEmpty (by rw [hf]; rfl)
    have hv' := hv.withPeriods (f := .yearly) hpos Nat.one_ne_zero (fun _ => rfl) (Or.inl hyear)
      (Or.inr (by decide)) day
    apply Rule.sameTimes_of_allows hv (hv'.inAllMonths hpos) hpos hpos ⟨rfl, rfl, rfl⟩
      ha.year_nonneg hb.year_le hi rfl
    · intro anchor d
      exact Rule.allowsDate_monthly_iff_yearly hf hm
    · intro anchor u
      exact Rule.allowsTime_congr (by rw [hf]; rfl) rfl rfl rfl rfl

/-- Sundays and Wednesdays, five of them in all. -/
def fiveDays : Rule where
  frequency := .weekly
  count := some 5
  byDay := .ofList [.every .wednesday, .every .sunday]

theorem expand_regrouped_fiveDays :
    (fiveDays.Valid ∧ fiveDays.interval = 1 ∧ newYear.Plain ∧ earlyDays.before.Plain ∧
      ∃ found found' found'', fiveDays.expand earlyDays 10 none = .ok found ∧
        (fiveDays.withPeriods .weekly 1 .sunday).expand earlyDays 10 none = .ok found' ∧
        (fiveDays.withPeriods .daily 1 .monday).expand earlyDays 10 none = .ok found'' ∧
        found.length = 5 ∧ found.map Occurrence.time = found'.map Occurrence.time ∧
        found.map Occurrence.time = found''.map Occurrence.time) ∧
    (lastFriday.Valid ∧ lastFriday.interval = 1 ∧
      ∃ found found', lastFriday.expand earlyDays 10 none = .ok found ∧
        (lastFriday.withPeriods .yearly 1 .monday).inAllMonths.expand earlyDays 10 none =
          .ok found' ∧
        found.length = 2 ∧ found.map Occurrence.time = found'.map Occurrence.time) := by
  have hd : fiveDays.Valid := by decide
  have hf : lastFriday.Valid := by decide
  have ha : newYear.Plain := by decide
  have hb : earlyDays.before.Plain := by decide
  refine ⟨⟨hd, rfl, ha, hb, _, _, _, rfl, rfl, rfl, rfl, ?_, ?_⟩,
    ⟨hf, rfl, _, _, rfl, rfl, rfl, ?_⟩⟩
  · exact (expand_regrouped fiveDays earlyDays .sunday hd rfl rfl ha hb).1 rfl 10 10 _ _ rfl rfl
  · exact (expand_regrouped fiveDays earlyDays .monday hd rfl rfl ha hb).2.1 rfl rfl
      10 10 _ _ rfl rfl
  · exact (expand_regrouped lastFriday earlyDays .monday hf rfl rfl ha hb).2.2 rfl rfl
      10 10 _ _ rfl rfl

end Recurrence
