import Mathlib.Data.Int.ConditionallyCompleteOrder
import Mathlib.Order.ConditionallyCompleteLattice.Basic
import Recurrence.Expansion.Cadence
import Recurrence.Proofs.Calendar.Seconds

/-!
# Arithmetic of period starts

`Cadence.second` is the start of a period as an unbounded number of seconds. The calendar has a
period exactly if it has that second (`start?_eq_some_iff`), and the two ways in which a period is
found from a time are exact: `firstFrom_le_iff` and `lt_ended_iff`, at whole seconds. At any time
`startedBefore_le_iff` counts the periods up to it.
-/

namespace Recurrence.Cadence

set_option autoImplicit false

open Calendar

variable {c : Cadence} {i j : Nat} {s t : Timestamp}

def step : Cadence → Nat
  | months _ step => step
  | seconds _ step => step

/-- The start of a period in seconds since the start of the calendar, which need not have it. -/
def second (c : Cadence) (index : Nat) : Int :=
  match c with
  | months origin step => (monthStart (origin + index * step) - yearStart firstYear) * 86400
  | seconds origin step => origin + index * step

/-- The year of a month fits into 32 bits if the calendar has the month. -/
theorem ofMonthIndex?_eq_some_iff {m : Int} {d : Date} :
    Date.ofMonthIndex? m = some d ↔ d.number = monthStart m := by
  have h := monthLength_pos (isLeap (m / 12)) (m % 12).toNat (by omega)
  have hcivil : Date.ofCivil? (m / 12) ((m % 12).toNat + 1) 1 = some d ↔
      d.number = monthStart m := by
    rw [Date.ofCivil?, if_pos ⟨le_refl 1, by unfold daysInMonth; omega⟩, Date.number_ofNumber?]
    simp [monthStart]
  simp only [Date.ofMonthIndex?, Option.bind_eq_bind, Option.bind_eq_some_iff, fit?_eq_some_iff]
  constructor
  · intro h
    obtain ⟨_, ⟨-, rfl⟩, hd⟩ := h
    exact hcivil.mp hd
  · intro hd
    refine ⟨m / 12, ⟨?_, rfl⟩, hcivil.mpr hd⟩
    have hm : d.monthIndex = m :=
      Date.monthIndex_eq_iff.mpr ⟨hd.ge, hd.symm ▸ monthStart_strictMono (Int.lt_succ m)⟩
    have hy := d.year_mem
    simp only [firstYear, lastYear] at hy
    rw [← hm, Date.monthIndex_div, fits_32_iff]
    omega

theorem second_start?_months {origin : Int} {step : Nat} :
    (∃ d, d.number = monthStart (origin + i * step) ∧ Timestamp.startOfDay d = s) ↔
      s.nano = 0 ∧ (s.seconds : Int) = (months origin step).second i := by
  simp only [second]
  constructor
  · intro h
    obtain ⟨d, hd, rfl⟩ := h
    refine ⟨rfl, ?_⟩
    rw [Timestamp.seconds_startOfDay, ← hd]
    have := d.index_cast
    omega
  · intro h
    obtain ⟨hs, he⟩ := h
    have hsec := s.seconds_cast
    have hday := s.time.lt_day
    refine ⟨s.date, by omega, ?_⟩
    apply Timestamp.eq_of_seconds rfl hs
    rw [Timestamp.seconds_startOfDay]
    have := s.date.index_cast
    omega

/-- A period that has a start starts with its second. -/
theorem of_start? (h : c.start? i = some s) : s.nano = 0 ∧ (s.seconds : Int) = c.second i := by
  cases c with
  | months origin step =>
    simp only [start?, Option.bind_eq_bind, Option.bind_eq_some_iff, fit?_eq_some_iff,
      Option.map_eq_some_iff, ofMonthIndex?_eq_some_iff] at h
    obtain ⟨_, -, _, ⟨-, rfl⟩, _, ⟨-, rfl⟩, hd⟩ := h
    exact second_start?_months.mp hd
  | seconds origin step =>
    simp only [start?, Option.bind_eq_bind, Option.bind_eq_some_iff, fit?_eq_some_iff,
      Option.ite_none_right_eq_some, Timestamp.ofSeconds?_eq_some_iff] at h
    obtain ⟨_, -, _, ⟨-, rfl⟩, -, hn, hs⟩ := h
    refine ⟨hn, ?_⟩
    rw [hs, second, ← Int.natCast_mul, Int.toNat_natCast, Int.natCast_add]

theorem nano_start (h : c.start? i = some s) : s.nano = 0 := (of_start? h).1

theorem second_start (h : c.start? i = some s) : c.second i = s.seconds := (of_start? h).2.symm

/-- A start is a whole second, so a fraction of a second in `t` does not matter. -/
theorem start_le_iff (hs : c.start? i = some s) : s ≤ t ↔ c.second i ≤ t.seconds := by
  rw [second_start hs, Int.ofNat_le]
  constructor
  · exact Timestamp.seconds_le_of_le
  · intro h
    rw [Timestamp.le_iff_rank, Timestamp.rank, Timestamp.rank, nano_start hs]
    omega

theorem lt_start_iff (hs : c.start? i = some s) : t < s ↔ (t.seconds : Int) < c.second i := by
  rw [← Timestamp.not_le, start_le_iff hs, Int.not_le]

/-- The arithmetic of periods is exact: a number that is too large for it belongs to a period that
the calendar does not have. -/
theorem start?_eq_some_iff (hc : 0 < c.step) (h0 : 0 ≤ c.second 0) :
    c.start? i = some s ↔ s.nano = 0 ∧ (s.seconds : Int) = c.second i := by
  refine ⟨of_start?, ?_⟩
  have hstep : (i : Int) ≤ i * c.step := by
    rw [← Int.natCast_mul, Int.ofNat_le]
    exact Nat.le_mul_of_pos_right i hc
  cases c with
  | months origin step =>
    intro h
    change (i : Int) ≤ i * step at hstep
    obtain ⟨d, hd, rfl⟩ := second_start?_months.mpr h
    have hm : d.monthIndex = origin + i * step :=
      Date.monthIndex_eq_iff.mpr ⟨hd.ge, hd.symm ▸ monthStart_strictMono (Int.lt_succ _)⟩
    have hfirst : firstYear * 12 ≤ origin := by
      rw [← monthStart_strictMono.le_iff_le, monthStart_mul_twelve]
      simp only [second, Nat.cast_zero, zero_mul, add_zero] at h0
      omega
    have hy := d.year_mem
    have hdiv := d.monthIndex_div
    simp only [start?, Option.bind_eq_bind, Option.bind_eq_some_iff, fit?_eq_some_iff,
      Option.map_eq_some_iff, ofMonthIndex?_eq_some_iff]
    simp only [firstYear, lastYear] at hfirst hy
    refine ⟨i, ⟨?_, rfl⟩, i * step, ⟨?_, rfl⟩, origin + i * step, ⟨?_, rfl⟩, d, hd, rfl⟩ <;>
      rw [fits_64_iff] <;> omega
  | seconds origin step =>
    intro h
    change (i : Int) ≤ i * step at hstep
    obtain ⟨hn, hs⟩ := h
    have hcast := s.seconds_cast
    have hday := s.time.lt_day
    have hlast := s.date.lt_end
    have hcal : (yearStart (lastYear + 1) - yearStart firstYear) * 86400 ≤ longestGap := by decide
    simp only [second, longestGap] at hs hcal
    simp only [start?, Option.bind_eq_bind, Option.bind_eq_some_iff, fit?_eq_some_iff,
      Option.ite_none_right_eq_some, Timestamp.ofSeconds?_eq_some_iff]
    refine ⟨i, ⟨?_, rfl⟩, i * step, ⟨?_, rfl⟩, ?_, hn, ?_⟩
    · rw [fits_64_iff]
      omega
    · rw [fits_64_iff]
      omega
    · unfold longestGap
      omega
    · omega

theorem second_strictMono (hc : 0 < c.step) : StrictMono c.second := by
  apply strictMono_nat_of_lt_succ
  intro n
  cases c with
  | months origin step =>
    have hm : monthStart (origin + (n : Int) * step) <
        monthStart (origin + ((n + 1 : Nat) : Int) * step) := by
      apply monthStart_strictMono
      have : 0 < step := hc
      push_cast
      rw [Int.add_mul]
      omega
    simp only [second]
    omega
  | seconds origin step =>
    have : 0 < step := hc
    simp only [second]
    push_cast
    rw [Int.add_mul]
    omega

theorem start_lt (hc : 0 < c.step) (hs : c.start? i = some s) (ht : c.start? j = some t)
    (h : i < j) : s < t := by
  rw [lt_start_iff ht, ← second_start hs]
  exact second_strictMono hc h

theorem start_le (hc : 0 < c.step) (hs : c.start? i = some s) (ht : c.start? j = some t)
    (h : i ≤ j) : s ≤ t := by
  rw [start_le_iff hs, ← second_start ht]
  exact (second_strictMono hc).monotone h

theorem exists_seconds {n : Nat} (h : n ≤ t.seconds) : ∃ s, Timestamp.ofSeconds? n = some s := by
  have hdiv : n / 86400 ≤ t.date.index := by
    rw [← t.seconds_div]
    exact Nat.div_le_div_right h
  have hlast := t.date.lt_end
  have hindex := t.date.index_cast
  have hd : yearStart firstYear ≤ yearStart firstYear + (n / 86400 : Nat) ∧
      yearStart firstYear + (n / 86400 : Nat) < yearStart (lastYear + 1) := by omega
  exact ⟨_, by rw [Timestamp.ofSeconds?, Date.ofIndex?, Date.ofNumber?, dif_pos hd]; rfl⟩

/-- The first day after the year 9999 is still in the calendar. -/
theorem exists_seconds_of_year {n : Nat} (hy : t.date.year ≤ 9999)
    (hn : n ≤ t.date.index * 86400 + 86400) : ∃ s, Timestamp.ofSeconds? n = some s := by
  have hnext : ∃ d : Date, d.number = yearStart 10000 :=
    ⟨⟨yearStart 10000, by decide, by decide⟩, rfl⟩
  obtain ⟨d, hnumber⟩ := hnext
  have hmono := yearStart_strictMono.le_iff_le.mpr (show t.date.year + 1 ≤ 10000 by omega)
  have hlater : t.date.number < d.number :=
    hnumber.symm ▸ Int.lt_of_lt_of_le t.date.lt_yearStart_year hmono
  have hindex : t.date.index + 1 ≤ d.index := by
    have hs := t.date.index_cast
    have hd := d.index_cast
    omega
  apply exists_seconds (t := Timestamp.startOfDay d)
  rw [Timestamp.seconds_startOfDay]
  calc n ≤ (t.date.index + 1) * 86400 := by omega
    _ ≤ d.index * 86400 := Nat.mul_le_mul_right 86400 hindex

/-- The calendar has every period that starts before one of its times. -/
theorem exists_start (hc : 0 < c.step) (h0 : 0 ≤ c.second 0) (h : c.second i ≤ t.seconds) :
    ∃ s, c.start? i = some s := by
  have hpos := (second_strictMono hc).monotone (Nat.zero_le i)
  obtain ⟨s, hs⟩ := exists_seconds (n := (c.second i).toNat) (t := t) (by omega)
  rw [Timestamp.ofSeconds?_eq_some_iff] at hs
  exact ⟨s, (start?_eq_some_iff hc h0).mpr ⟨hs.1, by omega⟩⟩

/-- The periods that the calendar has come before those that it has not. -/
theorem start?_of_le (hc : 0 < c.step) (h0 : 0 ≤ c.second 0) (ht : c.start? j = some t)
    (h : i ≤ j) : ∃ s, c.start? i = some s := by
  have hle := (second_strictMono hc).monotone h
  rw [second_start ht] at hle
  exact exists_start hc h0 hle

theorem start?_eq_none_of_le (hc : 0 < c.step) (h0 : 0 ≤ c.second 0) (hi : c.start? i = none)
    (h : i ≤ j) : c.start? j = none := by
  cases ht : c.start? j with
  | none => rfl
  | some t =>
    obtain ⟨s, hs⟩ := start?_of_le hc h0 ht h
    rw [hi] at hs
    cases hs

theorem second_months_le_iff {m : Int} (t : Timestamp) :
    (monthStart m - yearStart firstYear) * 86400 ≤ (t.seconds : Int) ↔ m ≤ t.date.monthIndex := by
  have hsec := t.seconds_cast
  have hday := t.time.lt_day
  have hiff := Date.monthStart_le_iff (d := t.date) (m := m)
  omega

theorem ceil_le_monthStart_iff {m : Int} (t : Timestamp) :
    (t.ceil : Int) ≤ (monthStart m - yearStart firstYear) * 86400 ↔
      t.date.monthIndex < m ∨
        t.date.monthIndex = m ∧ (1 < t.date.day || !t.isMidnight) = false := by
  have hsec := t.seconds_cast
  have hday := t.time.lt_day
  have hnum := t.date.number_eq_monthStart
  have hciv := t.date.civil_bounds
  have hlt := t.date.lt_monthStart_monthIndex
  have hlate : (1 < t.date.day || !t.isMidnight) = false ↔
      t.date.day = 1 ∧ t.time.seconds = 0 ∧ t.nano = 0 := by
    simp only [Timestamp.isMidnight, Bool.or_eq_false_iff, decide_eq_false_iff_not,
      Bool.not_eq_false', Bool.and_eq_true, decide_eq_true_eq]
    omega
  have hceil : (t.ceil : Int) = t.seconds + if t.nano = 0 then 0 else 1 := by
    unfold Timestamp.ceil
    split <;> simp
  rw [hlate]
  rcases Int.lt_trichotomy t.date.monthIndex m with h | h | h
  · have := monthStart_strictMono.le_iff_le.mpr (show t.date.monthIndex + 1 ≤ m by omega)
    split at hceil <;> omega
  · subst h
    split at hceil <;> omega
  · have := monthStart_strictMono h
    split at hceil <;> omega

theorem ceil_div_le_iff {gap step i : Nat} (hs : 0 < step) :
    (gap + step - 1) / step ≤ i ↔ gap ≤ i * step := by
  rw [Nat.div_le_iff_le_mul hs]
  omega

/-- The periods from `startedBefore t` on are those that do not start before `t`. -/
theorem startedBefore_le_iff (hc : 0 < c.step) :
    c.startedBefore t ≤ i ↔ (t.ceil : Int) ≤ c.second i := by
  cases c with
  | months origin step =>
    have hstep : 0 < (step : Int) := by have : 0 < step := hc; omega
    have hdiv := Int.mul_ediv_add_emod (t.date.monthIndex - origin) step
    have hmod := Int.emod_nonneg (t.date.monthIndex - origin) (show (step : Int) ≠ 0 by omega)
    have hlt := Int.emod_lt_of_pos (t.date.monthIndex - origin) hstep
    simp only [startedBefore, firstFrom, second, ceil_le_monthStart_iff]
    generalize (t.date.monthIndex - origin) / step = q at hdiv
    generalize (t.date.monthIndex - origin) % step = r at hdiv hmod hlt ⊢
    have hcmp : q < i ∧ t.date.monthIndex - origin < i * step ∨
        q = i ∧ t.date.monthIndex - origin = i * step + r ∨
        i < q ∧ i * step + step ≤ t.date.monthIndex - origin := by
      rcases Int.lt_trichotomy q i with h | h | h
      · have := Int.mul_le_mul_of_nonneg_right (show q + 1 ≤ i by omega) hstep.le
        rw [Int.add_mul, Int.mul_comm q] at this
        omega
      · rw [h, Int.mul_comm] at hdiv
        omega
      · have := Int.mul_le_mul_of_nonneg_right (show (i : Int) + 1 ≤ q by omega) hstep.le
        rw [Int.add_mul, Int.mul_comm q] at this
        omega
    cases hlate : (1 < t.date.day || !t.isMidnight) <;> by_cases hr : r = 0 <;>
      simp [hr] <;> omega
  | seconds origin step =>
    have hstep : 0 < step := hc
    simp only [startedBefore, second]
    change (t.ceil - origin + step - 1) / step ≤ i ↔ _
    rw [ceil_div_le_iff hstep]
    omega

theorem startedBefore_le_iff_le (hc : 0 < c.step) (hs : c.start? i = some s) :
    c.startedBefore t ≤ i ↔ t ≤ s := by
  rw [startedBefore_le_iff hc, second_start hs, Timestamp.le_iff_ceil (nano_start hs)]
  omega

theorem secondsSince_of_nano {origin : Nat} (ht : t.nano = 0) :
    secondsSince origin t = t.seconds - origin := by
  simp [secondsSince, ht]

theorem firstFrom_eq_startedBefore (ht : t.nano = 0) : c.firstFrom t = c.startedBefore t := by
  cases c with
  | months origin step => rfl
  | seconds origin step =>
    simp only [firstFrom, startedBefore, secondsSince_of_nano ht, ht, if_true, Nat.add_zero]

/-- At a whole second `firstFrom` is the first of the periods that do not start before it. -/
theorem firstFrom_le_iff (hc : 0 < c.step) (ht : t.nano = 0) (hs : c.start? i = some s) :
    c.firstFrom t ≤ i ↔ t ≤ s := by
  rw [firstFrom_eq_startedBefore ht, startedBefore_le_iff_le hc hs]

/-- The periods that have ended at a whole second are those whose next one has started. -/
theorem lt_ended_iff (hc : 0 < c.step) (ht : t.nano = 0) :
    i < c.ended t ↔ c.second (i + 1) ≤ t.seconds := by
  cases c with
  | months origin step =>
    have hstep : 0 < (step : Int) := by have : 0 < step := hc; omega
    simp only [ended, second, second_months_le_iff]
    have hdiv : ((i + 1 : Nat) : Int) ≤ (t.date.monthIndex - origin) / step ↔ _ :=
      Int.le_ediv_iff_mul_le hstep
    omega
  | seconds origin step =>
    have hstep : 0 < step := hc
    have hdiv : i + 1 ≤ (t.seconds - origin) / step ↔ _ := Nat.le_div_iff_mul_le hstep
    have hpos : step ≤ (i + 1) * step := Nat.le_mul_of_pos_left step (Nat.succ_pos i)
    rw [ended, second, secondsSince_of_nano ht, ← Int.natCast_mul]
    omega

/-- A period has ended at a time only if the next one starts no later. A leap second counts. -/
theorem second_le_ceil_of_lt_ended (hc : 0 < c.step) (h : i < c.ended t) :
    c.second (i + 1) ≤ t.ceil := by
  have hle : t.seconds ≤ t.ceil := Nat.le_add_right _ _
  cases c with
  | months origin step =>
    have hstep : 0 < (step : Int) := by have : 0 < step := hc; omega
    have hdiv : ((i + 1 : Nat) : Int) ≤ (t.date.monthIndex - origin) / step ↔ _ :=
      Int.le_ediv_iff_mul_le hstep
    simp only [ended] at h
    have := (second_months_le_iff (m := origin + ((i + 1 : Nat) : Int) * step) t).mpr (by omega)
    simp only [second]
    omega
  | seconds origin step =>
    have hstep : 0 < step := hc
    have hdiv : i + 1 ≤ secondsSince origin t / step ↔ _ := Nat.le_div_iff_mul_le hstep
    have hpos : step ≤ (i + 1) * step := Nat.le_mul_of_pos_left step (Nat.succ_pos i)
    have hsince : secondsSince origin t ≤ t.ceil - origin := by
      simp only [secondsSince, Timestamp.ceil, Bool.and_eq_true, decide_eq_true_eq]
      split <;> split <;> omega
    simp only [ended] at h
    rw [second, ← Int.natCast_mul]
    omega

theorem secondsSince_mono {origin : Nat} (h : s ≤ t) :
    secondsSince origin s ≤ secondsSince origin t := by
  simp only [secondsSince, Bool.and_eq_true, decide_eq_true_eq]
  rcases Nat.lt_or_eq_of_le (Timestamp.seconds_le_of_le h) with hlt | heq
  · split <;> split <;> omega
  · have hnano : s.nano ≤ t.nano := by
      rw [Timestamp.le_iff_rank, Timestamp.rank, Timestamp.rank, heq] at h
      exact Nat.le_of_add_le_add_left h
    have htime : s.time.seconds = t.time.seconds := by
      rw [← s.seconds_mod, ← t.seconds_mod, heq]
    rw [heq, htime]
    split <;> split <;> omega

theorem ended_mono (hc : 0 < c.step) (h : s ≤ t) : c.ended s ≤ c.ended t := by
  cases c with
  | months origin step =>
    have hstep : 0 < (step : Int) := by have : 0 < step := hc; omega
    have hm : s.date.monthIndex ≤ t.date.monthIndex := by
      rw [← Date.monthStart_le_iff]
      exact Int.le_trans s.date.monthStart_monthIndex_le (Timestamp.date_le_of_le h)
    have hsub : s.date.monthIndex - origin ≤ t.date.monthIndex - origin := by omega
    have := Int.ediv_le_ediv hstep hsub
    simp only [ended]
    omega
  | seconds origin step => exact Nat.div_le_div_right (secondsSince_mono h)

/-- A period starts after a time that fewer periods have ended at. -/
theorem seconds_lt_second_of_ended_lt (hc : 0 < c.step) (h : c.ended t < i) :
    (t.seconds : Int) < c.second i := by
  have hwhole : Timestamp.of t.date t.time ≤ t := by
    rw [Timestamp.le_iff_rank]
    exact Nat.add_le_add_left (Nat.zero_le _) _
  have hlt := Nat.lt_of_le_of_lt (ended_mono hc hwhole) h
  obtain ⟨j, rfl⟩ := Nat.exists_eq_succ_of_ne_zero (Nat.ne_zero_of_lt hlt)
  have hnot := (lt_ended_iff hc (Timestamp.of_nano t.date t.time)).not.mp
    (Nat.not_lt.mpr (Nat.le_of_lt_succ hlt))
  exact Int.not_le.mp hnot

end Recurrence.Cadence
