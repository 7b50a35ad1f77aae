import Mathlib.Data.List.Sort
import Recurrence.Proofs.Expansion.RuleSet

/-!
# When a rule occurs

Without positions, a rule occurs at the times that lie in one of its periods and pass its filters
(`Rule.Occurs`). Rules that occur at the same times from their anchor to the end of a window list
the same times there (`Rule.sameTimes_of_occurs`), whatever periods they go through.
-/

namespace Recurrence

set_option autoImplicit false

open Calendar

/-- How many periods of the frequency a day has, if every day is divided into whole periods. -/
def Frequency.perDay? : Frequency → Option Nat
  | secondly => some 86400
  | minutely => some 1440
  | hourly => some 24
  | daily => some 1
  | weekly | monthly | yearly => none

theorem Frequency.exists_unit {f : Frequency} {k : Nat} (hk : f.perDay? = some k) :
    ∃ u, u * k = 86400 := by
  cases f <;> cases hk
  case secondly => exact ⟨1, rfl⟩
  case minutely => exact ⟨60, rfl⟩
  case hourly => exact ⟨3600, rfl⟩
  case daily => exact ⟨86400, rfl⟩

theorem Frequency.unit_cases {f : Frequency} {k u : Nat} (hk : f.perDay? = some k)
    (hu : u * k = 86400) : f = secondly ∧ u = 1 ∨ f = minutely ∧ u = 60 ∨
      f = hourly ∧ u = 3600 ∨ f = daily ∧ u = 86400 := by
  cases f <;> cases hk
  case secondly => exact Or.inl ⟨rfl, by omega⟩
  case minutely => exact Or.inr (Or.inl ⟨rfl, by omega⟩)
  case hourly => exact Or.inr (Or.inr (Or.inl ⟨rfl, by omega⟩))
  case daily => exact Or.inr (Or.inr (Or.inr ⟨rfl, by omega⟩))

namespace Rule

/-- Whether `t` lies in a period of the rule, started at `anchor`. -/
def InPeriod (r : Rule) (anchor t : Timestamp) : Prop :=
  ∃ c i s, Plan.cadence? r anchor = some c ∧ c.start? i = some s ∧ r.frequency.Covers s t

structure Occurs (r : Rule) (anchor t : Timestamp) : Prop where
  nano : t.nano = 0
  inPeriod : r.InPeriod anchor t
  date : r.AllowsDate anchor.date t.date
  time : r.AllowsTime anchor.time t.time

/-- Whether two rules list the same times in a window, if neither of them gives up. -/
def SameTimes (r r' : Rule) (w : Window) : Prop :=
  ∀ m m' found found', r.expand w m none = .ok found → r'.expand w m' none = .ok found' →
    found.map Occurrence.time = found'.map Occurrence.time

end Rule

namespace Plan

variable {rule : Rule} {anchor t : Timestamp} {c : Cadence}

theorem inPeriod_iff (hc : cadence? rule anchor = some c) : rule.InPeriod anchor t ↔
    ∃ i s, c.start? i = some s ∧ rule.frequency.Covers s t := by
  constructor
  · intro h
    obtain ⟨c', i, s, hc', h⟩ := h
    rw [hc] at hc'
    cases hc'
    exact ⟨i, s, h⟩
  · intro h
    obtain ⟨i, s, h⟩ := h
    exact ⟨c, i, s, hc, h⟩

/-- Periods that start a fixed number of seconds apart. -/
theorem inPeriod_iff_seconds {origin step length : Nat}
    (hc : cadence? rule anchor = some (.seconds origin step)) (hi : rule.interval ≠ 0)
    (hcov : ∀ s, rule.frequency.Covers s t ↔ s ≤ t ∧ t.seconds < s.seconds + length)
    (ht : t.nano = 0) : rule.InPeriod anchor t ↔
      ∃ i : Nat, origin + i * step ≤ t.seconds ∧ t.seconds < origin + i * step + length := by
  rw [inPeriod_iff hc]
  constructor
  · intro h
    obtain ⟨i, s, hs, h⟩ := h
    rw [hcov, Timestamp.le_iff_seconds (Cadence.nano_start hs) ht, start_seconds hs] at h
    exact ⟨i, h⟩
  · intro h
    obtain ⟨i, hle, hlt⟩ := h
    have hsec : (Cadence.seconds origin step).second i ≤ t.seconds := by
      simp only [Cadence.second]
      exact_mod_cast hle
    obtain ⟨s, hs⟩ := Cadence.exists_start (step_pos hc hi) (second_zero_nonneg hc) hsec
    refine ⟨i, s, hs, ?_⟩
    rw [hcov, Timestamp.le_iff_seconds (Cadence.nano_start hs) ht, start_seconds hs]
    exact ⟨hle, hlt⟩

theorem cadence?_of_perDay {k u : Nat} (hk : rule.frequency.perDay? = some k)
    (hu : u * k = 86400) :
    cadence? rule anchor = some (.seconds (anchor.seconds / u * u) (u * rule.interval)) := by
  have hmod := anchor.seconds_mod
  have hdiv := anchor.seconds_div
  rcases Frequency.unit_cases hk hu with ⟨hf, rfl⟩ | ⟨hf, rfl⟩ | ⟨hf, rfl⟩ | ⟨hf, rfl⟩
  · simp [cadence?, hf]
  · have ho : anchor.seconds - anchor.time.seconds % 60 = anchor.seconds / 60 * 60 := by omega
    simp only [cadence?, hf, ho]
  · have ho : anchor.seconds - anchor.time.seconds % 3600 = anchor.seconds / 3600 * 3600 := by omega
    simp only [cadence?, hf, ho]
  · simp only [cadence?, hf, hdiv]

theorem covers_iff_of_perDay {k u : Nat} {s : Timestamp} (hk : rule.frequency.perDay? = some k)
    (hu : u * k = 86400) :
    rule.frequency.Covers s t ↔ s ≤ t ∧ t.seconds < s.seconds + u := by
  rcases Frequency.unit_cases hk hu with ⟨hf, rfl⟩ | ⟨hf, rfl⟩ | ⟨hf, rfl⟩ | ⟨hf, rfl⟩ <;>
    rw [hf] <;> rfl

/-- Where a day is divided into periods of `u` seconds, division by `u` numbers the periods. -/
theorem inPeriod_iff_of_perDay {k u : Nat} (hk : rule.frequency.perDay? = some k)
    (hu : u * k = 86400) (hi : rule.interval ≠ 0) (ht : t.nano = 0) : rule.InPeriod anchor t ↔
      ∃ i : Nat, t.seconds / u = anchor.seconds / u + i * rule.interval := by
  have hpos : u ≠ 0 := by
    rintro rfl
    omega
  rw [inPeriod_iff_seconds (cadence?_of_perDay hk hu) hi
    (fun s => covers_iff_of_perDay (s := s) hk hu) ht]
  apply exists_congr
  intro i
  rw [Nat.div_eq_iff (Nat.pos_of_ne_zero hpos),
    show anchor.seconds / u * u + i * (u * rule.interval) =
      (anchor.seconds / u + i * rule.interval) * u by ring]
  omega

theorem inPeriod_iff_daily (hf : rule.frequency = .daily) (hi : rule.interval ≠ 0)
    (ht : t.nano = 0) : rule.InPeriod anchor t ↔
      ∃ i : Nat, t.date.number = anchor.date.number + (i * rule.interval : Nat) := by
  have hk : rule.frequency.perDay? = some 1 := by
    rw [hf]
    rfl
  rw [inPeriod_iff_of_perDay (u := 86400) hk rfl hi ht, t.seconds_div, anchor.seconds_div]
  apply exists_congr
  intro i
  have h1 := t.date.index_cast
  have h2 := anchor.date.index_cast
  omega

/-- Weeks are counted from the one that holds the anchor. -/
theorem inPeriod_iff_weekly (hf : rule.frequency = .weekly) (hi : rule.interval ≠ 0)
    (ha : 0 ≤ anchor.date.year) : ∃ first, first ≤ anchor.date.number ∧
      anchor.date.number < first + 7 ∧ ∀ t : Timestamp, t.nano = 0 → (rule.InPeriod anchor t ↔
        ∃ i : Nat, first + 7 * (i * rule.interval : Nat) ≤ t.date.number ∧
          t.date.number < first + 7 * (i * rule.interval : Nat) + 7) := by
  obtain ⟨c, hc, -⟩ := exists_plan rule ha
  have hcadence := hc
  simp only [cadence?, hf, Option.map_eq_some_iff] at hcadence
  obtain ⟨d, hd, rfl⟩ := hcadence
  rw [Date.weekStart?, Date.addDays?, Date.number_ofNumber?] at hd
  refine ⟨d.number, by omega, by omega, ?_⟩
  intro t ht
  rw [inPeriod_iff_seconds hc hi (fun s => by rw [hf]; rfl) ht]
  apply exists_congr
  intro i
  have hsec := t.seconds_cast
  have hday := t.time.lt_day
  have hindex := d.index_cast
  rw [show i * (604800 * rule.interval) = 604800 * (i * rule.interval) by ring]
  omega

/-- Periods that start a fixed number of months apart. -/
theorem exists_start_months {origin : Int} {step i : Nat}
    (hc : cadence? rule anchor = some (.months origin step)) (hi : rule.interval ≠ 0)
    (ht : t.nano = 0) (h : origin + i * step ≤ t.date.monthIndex) :
    ∃ s, (Cadence.months origin step).start? i = some s ∧ s ≤ t ∧
      s.date.monthIndex = origin + i * step := by
  have hsec : (Cadence.months origin step).second i ≤ t.seconds :=
    (Cadence.second_months_le_iff t).mpr h
  obtain ⟨s, hs⟩ := Cadence.exists_start (step_pos hc hi) (second_zero_nonneg hc) hsec
  rw [Cadence.second_start hs] at hsec
  refine ⟨s, hs, ?_, monthIndex_start hs⟩
  rw [Timestamp.le_iff_seconds (Cadence.nano_start hs) ht]
  omega

theorem inPeriod_iff_monthly (hf : rule.frequency = .monthly) (hi : rule.interval ≠ 0)
    (ht : t.nano = 0) : rule.InPeriod anchor t ↔
      ∃ i : Nat, t.date.monthIndex = anchor.date.monthIndex + i * rule.interval := by
  have hc : cadence? rule anchor = some (.months anchor.date.monthIndex rule.interval) := by
    simp only [cadence?, hf]
  have hcov (s : Timestamp) : t.date.monthIndex = s.date.monthIndex ↔
      t.date.year = s.date.year ∧ t.date.month = s.date.month := by
    have hm := s.date.month_mem
    rw [(Date.monthIndex_eq_of_civil hm.1 hm.2 (d := s.date)).mpr ⟨rfl, rfl⟩]
    exact Date.monthIndex_eq_of_civil hm.1 hm.2
  rw [inPeriod_iff hc, hf]
  constructor
  · intro h
    obtain ⟨i, s, hs, -, hst⟩ := h
    exact ⟨i, by rw [(hcov s).mpr hst, monthIndex_start hs]⟩
  · intro h
    obtain ⟨i, h⟩ := h
    obtain ⟨s, hs, hle, hm⟩ := exists_start_months hc hi ht h.ge
    exact ⟨i, s, hs, hle, (hcov s).mp (by rw [h, hm])⟩

theorem inPeriod_iff_yearly (hf : rule.frequency = .yearly) (hi : rule.interval ≠ 0)
    (ht : t.nano = 0) : rule.InPeriod anchor t ↔
      ∃ i : Nat, t.date.year = anchor.date.year + i * rule.interval := by
  have hc : cadence? rule anchor =
      some (.months (anchor.date.year * 12) (12 * rule.interval)) := by
    simp only [cadence?, hf]
  have hyears (i : Nat) : anchor.date.year * 12 + (i : Int) * (12 * rule.interval : Nat) =
      (anchor.date.year + i * rule.interval) * 12 := by
    push_cast
    ring
  have hdiv := t.date.monthIndex_div
  rw [inPeriod_iff hc, hf]
  constructor
  · intro h
    obtain ⟨i, s, hs, -, hst⟩ := h
    have hm := monthIndex_start hs
    have hs' := s.date.monthIndex_div
    rw [hyears] at hm
    refine ⟨i, ?_⟩
    dsimp only at hst
    omega
  · intro h
    obtain ⟨i, h⟩ := h
    obtain ⟨s, hs, hle, hm⟩ := exists_start_months (i := i) hc hi ht (by rw [hyears]; omega)
    have hs' := s.date.monthIndex_div
    rw [hyears] at hm
    refine ⟨i, s, hs, hle, ?_⟩
    dsimp only
    omega

/-- The candidates of all periods are the times at which the rule occurs. -/
theorem mem_candidatesFrom_iff_occurs (hv : rule.Valid) (hpos : rule.byPosition.isEmpty = true)
    (hc : cadence? rule anchor = some c) (hy : t.date.year ≤ 9999) :
    t ∈ (filled rule anchor c).candidatesFrom 0 ↔ rule.Occurs anchor t := by
  have hlaw := lawful_of_valid hv (of?_eq_some_iff.mpr ⟨c, hc, rfl⟩)
  have hflat {i : Nat} {s : Timestamp} (hs : c.start? i = some s) (hst : s ≤ t) :
      t ∈ (filled rule anchor c).period i ↔ rule.Admits anchor s t := by
    -- the calendar goes on after the year 9999, so even the last week is whole
    have hyear := Date.year_le_of_le (Timestamp.date_le_of_le hst)
    rw [period_of_start (p := filled rule anchor c) hs]
    exact mem_flatten_iff hv hpos (aligned_start hc hs) (weekFits_of_year (hyear.trans hy))
  rw [hlaw.mem_candidatesFrom]
  constructor
  · intro h
    obtain ⟨i, -, ht⟩ := h
    cases hs : c.start? i with
    | none =>
      rw [period_of_none (p := filled rule anchor c) hs] at ht
      cases ht
    | some s =>
      have hst := hlaw.start_le_of_mem hs ht (Nat.le_refl i)
      obtain ⟨hn, hcov, hd, htime⟩ := (hflat hs hst).mp ht
      exact ⟨hn, (inPeriod_iff hc).mpr ⟨i, s, hs, hcov⟩, hd, htime⟩
  · intro h
    obtain ⟨hn, hin, hd, htime⟩ := h
    obtain ⟨i, s, hs, hcov⟩ := (inPeriod_iff hc).mp hin
    exact ⟨i, Nat.zero_le i, (hflat hs hcov.1).mpr ⟨hn, hcov, hd, htime⟩⟩

end Plan

theorem upTo_append {α : Type} (limit : Option Nat) (l l' : List α) :
    upTo limit (l ++ l') = upTo limit l ++ upTo (limit.map (· - l.length)) l' := by
  cases limit with
  | none => rfl
  | some n => exact List.take_append

namespace Window

variable {w : Window} {l : List Timestamp}

theorem append_filter_before (hl : l.Pairwise (· < ·)) :
    l = l.filter (· < w.before) ++ l.filter (w.before ≤ ·) := by
  apply hl.eq_of_mem_iff (List.pairwise_append.mpr ⟨hl.filter _, hl.filter _, ?_⟩)
  · intro t
    simp only [List.mem_append, List.mem_filter, decide_eq_true_eq, ← Timestamp.not_lt]
    tauto
  · intro t ht t' ht'
    simp only [List.mem_filter, decide_eq_true_eq] at ht ht'
    exact Timestamp.lt_of_lt_of_le ht.2 ht'.2

/-- What lies behind a window has no part in a count that ends in it. -/
theorem filter_upTo (hl : l.Pairwise (· < ·)) (limit : Option Nat) :
    (upTo limit l).filter w.Contains =
      (upTo limit (l.filter (· < w.before))).filter w.Contains := by
  have hbehind (limit' : Option Nat) :
      (upTo limit' (l.filter (w.before ≤ ·))).filter w.Contains = [] := by
    rw [List.filter_eq_nil_iff]
    intro t ht hc
    have hle := List.mem_filter.mp ((upTo_sublist _ _).mem ht)
    rw [decide_eq_true_eq] at hle hc
    exact Timestamp.not_lt.mpr hle.2 hc.2
  conv_lhs => rw [append_filter_before (w := w) hl, upTo_append, List.filter_append, hbehind,
    List.append_nil]

/-- The part of a sequence in a window depends only on the candidates from the anchor to the end of
the window. -/
theorem filter_sequence_congr {p p' : Plan} {anchor : Timestamp} (hp : p.Lawful) (hp' : p'.Lawful)
    (hlast : p'.rule.last = p.rule.last) (h : ∀ t, anchor ≤ t → t < w.before →
      (t ∈ p.candidatesFrom 0 ↔ t ∈ p'.candidatesFrom 0)) (limit : Option Nat) :
    (p.sequence anchor limit).filter w.Contains =
      (p'.sequence anchor limit).filter w.Contains := by
  have hasc := hp.candidatesFrom_ascending 0
  have hasc' := hp'.candidatesFrom_ascending 0
  rw [Plan.sequence, Plan.sequence, Rule.span_eq_filter hasc, Rule.span_eq_filter hasc', hlast,
    filter_upTo (hasc.filter _), filter_upTo (hasc'.filter _), List.filter_filter,
    List.filter_filter]
  congr 2
  apply (hasc.filter _).eq_of_mem_iff (hasc'.filter _)
  intro t
  simp only [List.mem_filter, Bool.and_eq_true, decide_eq_true_eq]
  constructor
  · intro ht
    obtain ⟨hm, hb, ha, hl⟩ := ht
    exact ⟨(h t ha hb).mp hm, hb, ha, hl⟩
  · intro ht
    obtain ⟨hm, hb, ha, hl⟩ := ht
    exact ⟨(h t ha hb).mpr hm, hb, ha, hl⟩

end Window

namespace Rule

variable {r r' : Rule} {w : Window}

section Filters

variable {anchor d : Date} {f : Frequency} {k : Nat}

/-- What the parts of the rule say of a date, with its weekday counted among `days`. -/
def PartsAllow (r : Rule) (days : List Date) (d : Date) : Prop :=
  (r.byMonth.isEmpty = true ∨ d.month ∈ r.byMonth) ∧
    (r.byYearDay.isEmpty = true ∨ HoldsPlace r.byYearDay d.yearDay (daysInYear d.year)) ∧
    (r.byMonthDay.isEmpty = true ∨
      HoldsPlace r.byMonthDay d.day (daysInMonth d.year d.month)) ∧
    (r.byDay.isEmpty = true ∨ ∃ w ∈ r.byDay, w.weekday = d.weekday ∧
      ∀ n, w.ordinal = some n → IsNthWeekday days d n)

theorem allowsDate_iff : r.AllowsDate anchor d ↔ r.PartsAllow (r.scope d) d ∧
    (r.OpenDays → (r.frequency = .yearly → r.byMonth.isEmpty = true → d.month = anchor.month) ∧
      (r.frequency = .yearly ∨ r.frequency = .monthly → d.day = anchor.day) ∧
      (r.frequency = .weekly → d.weekday = anchor.weekday)) := by
  constructor
  · intro h
    obtain ⟨h1, h2, h3, h4, h5, h6, h7⟩ := h
    exact ⟨⟨h1, h2, h3, h4⟩, fun ho => ⟨h5 ho, h6 ho, h7 ho⟩⟩
  · intro h
    obtain ⟨⟨h1, h2, h3, h4⟩, h⟩ := h
    exact ⟨h1, h2, h3, h4, fun ho => (h ho).1, fun ho => (h ho).2.1, fun ho => (h ho).2.2⟩

theorem allowsDate_iff_of_perDay (hk : r.frequency.perDay? = some k) :
    r.AllowsDate anchor d ↔ r.PartsAllow (daysOfYear d.year) d := by
  have hf : r.frequency ≠ .weekly ∧ r.frequency ≠ .monthly ∧ r.frequency ≠ .yearly := by
    refine ⟨?_, ?_, ?_⟩ <;> intro hf <;> rw [hf] at hk <;> cases hk
  simp [allowsDate_iff, scope, hf]

theorem allowsDate_iff_weekly (hf : r.frequency = .weekly) : r.AllowsDate anchor d ↔
    r.PartsAllow (daysOfYear d.year) d ∧ (r.OpenDays → d.weekday = anchor.weekday) := by
  simp [allowsDate_iff, scope, hf]

theorem allowsDate_iff_monthly (hf : r.frequency = .monthly) : r.AllowsDate anchor d ↔
    r.PartsAllow (Plan.daysOfMonth d.year d.month) d ∧ (r.OpenDays → d.day = anchor.day) := by
  simp [allowsDate_iff, scope, hf]

theorem allowsDate_iff_yearly (hf : r.frequency = .yearly) : r.AllowsDate anchor d ↔
    r.PartsAllow (r.scope d) d ∧
      (r.OpenDays → (r.byMonth.isEmpty = true → d.month = anchor.month) ∧ d.day = anchor.day) := by
  simp [allowsDate_iff, hf]

end Filters

/-- The rule with periods of another kind. -/
def withPeriods (r : Rule) (f : Frequency) (interval : Nat) (day : Weekday) : Rule :=
  { r with frequency := f, interval := interval, weekStart := day }

theorem Valid.yearDay_isEmpty (hv : r.Valid) (h : allowsYearDay r.frequency = false) :
    r.byYearDay.isEmpty = true := by
  apply hv.yearDay_scope.resolve_right
  rw [h]
  exact Bool.false_ne_true

theorem Valid.withPeriods {f : Frequency} {n : Nat} (hv : r.Valid)
    (hpos : r.byPosition.isEmpty = true) (hn : n ≠ 0)
    (hord : r.hasOrdinal = true → allowsOrdinal f = true)
    (hyear : r.byYearDay.isEmpty = true ∨ allowsYearDay f = true)
    (hmonth : r.byMonthDay.isEmpty = true ∨ f ≠ .weekly) (day : Weekday) :
    (r.withPeriods f n day).Valid := by
  cases hv
  constructor
  case interval_pos => exact hn
  case ordinal_scope => exact hord
  case yearDay_scope => exact hyear
  case monthDay_scope => exact hmonth
  case position_scope => exact Or.inl hpos
  all_goals assumption

/-- The parts of a valid rule for days or weeks make sense in all periods, but weeks have no days of
the month. -/
theorem Valid.withPeriods_of_days {f : Frequency} {n : Nat} (hv : r.Valid)
    (hpos : r.byPosition.isEmpty = true)
    (hr : r.frequency = .daily ∨ r.frequency = .weekly) (hn : n ≠ 0) (hf : f ≠ .weekly)
    (day : Weekday) : (r.withPeriods f n day).Valid := by
  have hord : allowsOrdinal r.frequency = false := by
    rcases hr with hr | hr <;> rw [hr] <;> rfl
  have hyear : allowsYearDay r.frequency = false := by
    rcases hr with hr | hr <;> rw [hr] <;> rfl
  apply hv.withPeriods hpos hn ?_ (Or.inl (hv.yearDay_isEmpty hyear)) (Or.inr hf)
  intro h
  have := hv.ordinal_scope h
  rw [hord] at this
  cases this

/-- The parts that name times of day do so alike in all periods of a day or more. -/
theorem allowsTime_congr {anchor : Timestamp} {u : TimeOfDay}
    (hr : r.frequency.isSubDaily = false) (hr' : r'.frequency.isSubDaily = false)
    (hh : r'.byHour = r.byHour) (hm : r'.byMinute = r.byMinute) (hs : r'.bySecond = r.bySecond) :
    r.AllowsTime anchor.time u ↔ r'.AllowsTime anchor.time u := by
  have htimes : (Plan.filled r' anchor (.seconds 0 0)).times =
      (Plan.filled r anchor (.seconds 0 0)).times := by
    simp only [Plan.times, Plan.filled, hh, hm, hs]
  rw [← Plan.mem_times_iff (c := .seconds 0 0) hr', htimes, Plan.mem_times_iff hr]

/-- Two rules with one anchor, one count and one end. -/
structure SameSpan (r r' : Rule) : Prop where
  anchor : r'.anchor = r.anchor
  count : r'.count = r.count
  last : r'.last = r.last

/-- Rules that occur at the same times list the same times. -/
theorem sameTimes_of_occurs (hv : r.Valid) (hv' : r'.Valid)
    (hpos : r.byPosition.isEmpty = true) (hpos' : r'.byPosition.isEmpty = true)
    (hspan : r.SameSpan r') (ha : 0 ≤ (r.anchor.getD w.after).date.year)
    (hb : w.before.date.year ≤ 9999)
    (h : ∀ t, t.nano = 0 → r.anchor.getD w.after ≤ t →
      (r.Occurs (r.anchor.getD w.after) t ↔ r'.Occurs (r.anchor.getD w.after) t)) :
    r.SameTimes r' w := by
  intro m m' found found' hr hr'
  obtain ⟨c, hc, hp⟩ := Plan.exists_plan r ha
  obtain ⟨c', hc', hp'⟩ := Plan.exists_plan r' ha
  have hlimit : r'.limit? = r.limit? := by rw [limit?, limit?, hspan.count]
  rw [map_time_expand hv hp hr,
    map_time_expand hv' (by rw [hspan.anchor]; exact hp') hr', hspan.anchor, hlimit]
  apply Window.filter_sequence_congr (Plan.lawful_of_valid hv hp) (Plan.lawful_of_valid hv' hp')
    hspan.last
  intro t hat htb
  have hy := (Date.year_le_of_le (Timestamp.date_le_of_le (Timestamp.le_of_lt htb))).trans hb
  rw [Plan.mem_candidatesFrom_iff_occurs hv hpos hc hy,
    Plan.mem_candidatesFrom_iff_occurs hv' hpos' hc' hy]
  constructor
  · intro ho
    exact (h t ho.nano hat).mp ho
  · intro ho
    exact (h t ho.nano hat).mpr ho

end Rule

end Recurrence
