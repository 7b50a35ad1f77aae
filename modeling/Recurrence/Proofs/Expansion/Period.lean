import Mathlib.Tactic.Ring
import Recurrence.Proofs.Expansion.Cadence
import Recurrence.Proofs.Expansion.Filter

/-!
# Periods

A period is the calendar year, the calendar month, the seven days, the day, the hour, the minute or
the second that begins with its start. It ends before the next period of the rule starts.
-/

namespace Recurrence

set_option autoImplicit false

open Calendar

namespace Frequency

/-- Whether `t` lies in the period that begins with `start`. -/
def Covers (f : Frequency) (start t : Timestamp) : Prop :=
  start ≤ t ∧ match f with
    | yearly => t.date.year = start.date.year
    | monthly => t.date.year = start.date.year ∧ t.date.month = start.date.month
    | weekly => t.seconds < start.seconds + 604800
    | daily => t.seconds < start.seconds + 86400
    | hourly => t.seconds < start.seconds + 3600
    | minutely => t.seconds < start.seconds + 60
    | secondly => t.seconds < start.seconds + 1

/-- Whether a period may begin with `start`. -/
def Aligned (f : Frequency) (start : Timestamp) : Prop :=
  start.nano = 0 ∧ match f with
    | yearly => start.time.seconds = 0 ∧ start.date.number = yearStart start.date.year
    | monthly => start.time.seconds = 0 ∧ start.date.number = monthStart start.date.monthIndex
    | weekly => start.time.seconds = 0
    | daily => start.time.seconds = 0
    | hourly => start.time.seconds % 3600 = 0
    | minutely => start.time.seconds % 60 = 0
    | secondly => True

end Frequency

namespace Plan

variable {rule : Rule} {anchor s t : Timestamp} {c : Cadence} {i : Nat}

theorem start_months {origin : Int} {step : Nat}
    (hs : (Cadence.months origin step).start? i = some s) :
    s.time.seconds = 0 ∧ s.date.number = monthStart (origin + i * step) := by
  have hsec := Cadence.second_start hs
  have hcast := s.seconds_cast
  have hday := s.time.lt_day
  simp only [Cadence.second] at hsec
  omega

theorem monthIndex_start {origin : Int} {step : Nat}
    (hs : (Cadence.months origin step).start? i = some s) :
    s.date.monthIndex = origin + i * step := by
  rw [Date.monthIndex_eq_iff, (start_months hs).2]
  exact ⟨le_refl _, monthStart_strictMono (Int.lt_succ _)⟩

theorem monthIndex_start_yearly {year : Int} {interval : Nat}
    (hs : (Cadence.months (year * 12) (12 * interval)).start? i = some s) :
    s.date.monthIndex = s.date.year * 12 := by
  have hm := monthIndex_start hs
  have hd := s.date.monthIndex_div
  have hr : year * 12 + (i : Int) * (12 * interval : Nat) = (year + i * interval) * 12 := by
    push_cast
    ring
  rw [hr] at hm
  omega

theorem start_seconds {origin step : Nat} (hs : (Cadence.seconds origin step).start? i = some s) :
    s.seconds = origin + i * step := by
  have hsec := Cadence.second_start hs
  simp only [Cadence.second] at hsec
  omega

theorem aligned_start (hc : cadence? rule anchor = some c) (hs : c.start? i = some s) :
    rule.frequency.Aligned s := by
  refine ⟨Cadence.nano_start hs, ?_⟩
  have hmod := s.seconds_mod
  cases hf : rule.frequency <;>
    simp only [cadence?, hf, Option.some.injEq, Option.map_eq_some_iff] at hc ⊢
  case yearly =>
    subst hc
    obtain ⟨h0, hn⟩ := start_months hs
    rw [← monthIndex_start hs, monthIndex_start_yearly hs, monthStart_mul_twelve] at hn
    exact ⟨h0, hn⟩
  case monthly =>
    subst hc
    obtain ⟨h0, hn⟩ := start_months hs
    rw [← monthIndex_start hs] at hn
    exact ⟨h0, hn⟩
  case weekly =>
    obtain ⟨d, -, rfl⟩ := hc
    have hsec := start_seconds hs
    rw [← hmod, hsec, show i * (604800 * rule.interval) = 86400 * (7 * i * rule.interval) by ring]
    omega
  case daily =>
    subst hc
    have hsec := start_seconds hs
    rw [← hmod, hsec, show i * (86400 * rule.interval) = 86400 * (i * rule.interval) by ring]
    omega
  case hourly =>
    subst hc
    have hsec := start_seconds hs
    rw [show i * (3600 * rule.interval) = 3600 * (i * rule.interval) by ring] at hsec
    have := anchor.seconds_mod
    omega
  case minutely =>
    subst hc
    have hsec := start_seconds hs
    rw [show i * (60 * rule.interval) = 60 * (i * rule.interval) by ring] at hsec
    have := anchor.seconds_mod
    omega

theorem step_pos (hc : cadence? rule anchor = some c) (hi : rule.interval ≠ 0) : 0 < c.step := by
  cases hf : rule.frequency <;>
    simp only [cadence?, hf, Option.some.injEq, Option.map_eq_some_iff] at hc <;>
    first
    | subst hc
      simp only [Cadence.step]
      omega
    | obtain ⟨d, -, rfl⟩ := hc
      simp only [Cadence.step]
      omega

theorem second_zero_nonneg (hc : cadence? rule anchor = some c) : 0 ≤ c.second 0 := by
  have hfirst := anchor.date.first_le
  cases hf : rule.frequency <;>
    simp only [cadence?, hf, Option.some.injEq, Option.map_eq_some_iff] at hc
  case yearly =>
    subst hc
    have := yearStart_strictMono.le_iff_le.mpr anchor.date.year_mem.1
    simp only [Cadence.second, Nat.cast_zero, zero_mul, add_zero, monthStart_mul_twelve]
    omega
  case monthly =>
    subst hc
    rw [← monthStart_mul_twelve, Date.monthStart_le_iff] at hfirst
    have := monthStart_strictMono.le_iff_le.mpr hfirst
    rw [monthStart_mul_twelve] at this
    simp only [Cadence.second, Nat.cast_zero, zero_mul, add_zero]
    omega
  all_goals
    first
    | subst hc
      simp only [Cadence.second]
      omega
    | obtain ⟨d, -, rfl⟩ := hc
      simp only [Cadence.second]
      omega

theorem second_succ {origin step : Nat} :
    (Cadence.seconds origin step).second (i + 1) =
      (Cadence.seconds origin step).second i + step := by
  simp only [Cadence.second]
  push_cast
  ring

theorem lt_second_succ_months {origin : Int} {step : Nat}
    (hs : (Cadence.months origin step).start? i = some s)
    (ht : t.date.monthIndex < s.date.monthIndex + step) :
    (t.seconds : Int) < (Cadence.months origin step).second (i + 1) := by
  have hcast := t.seconds_cast
  have hday := t.time.lt_day
  have hlt := t.date.lt_monthStart_monthIndex
  have hnext : s.date.monthIndex + step = origin + ((i + 1 : Nat) : Int) * step := by
    rw [monthIndex_start hs]
    push_cast
    ring
  have := monthStart_strictMono.le_iff_le.mpr (show t.date.monthIndex + 1 ≤ _ from ht)
  rw [hnext] at this
  simp only [Cadence.second]
  omega

/-- A period has ended when the next one starts. -/
theorem lt_second_succ (hc : cadence? rule anchor = some c) (hi : rule.interval ≠ 0)
    (hs : c.start? i = some s) (ht : rule.frequency.Covers s t) :
    (t.seconds : Int) < c.second (i + 1) := by
  have hsec := Cadence.second_start hs
  obtain ⟨-, ht⟩ := ht
  cases hf : rule.frequency <;>
    simp only [cadence?, hf, Option.some.injEq, Option.map_eq_some_iff] at hc ht
  case yearly =>
    subst hc
    apply lt_second_succ_months hs
    have hstart := monthIndex_start_yearly hs
    have hdiv := t.date.monthIndex_div
    omega
  case monthly =>
    subst hc
    apply lt_second_succ_months hs
    have hm := s.date.month_mem
    rw [(Date.monthIndex_eq_of_civil hm.1 hm.2).mpr ht,
      (Date.monthIndex_eq_of_civil hm.1 hm.2).mpr ⟨rfl, rfl⟩]
    omega
  case weekly =>
    obtain ⟨d, -, rfl⟩ := hc
    rw [second_succ, hsec]
    omega
  all_goals
    subst hc
    rw [second_succ, hsec]
    omega

end Plan

end Recurrence
