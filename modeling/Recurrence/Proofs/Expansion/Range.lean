import Recurrence.Proofs.Query

/-!
# Within the calendar and within 64 bits

A walk ends without a word where the calendar has no further period. For a rule and a window that
come from texts, this is never before the end of the window (`Plan.Reaches`), and the numbers of
months, seconds and periods on the way are far smaller than 64 bits allow (`Cadence.Exact`).
-/

namespace Recurrence

set_option autoImplicit false

open Calendar Text

namespace Cadence

variable {c : Cadence} {i : Nat} {s t : Timestamp}

/-- The number of the month or of the second with which the first period starts. -/
def origin : Cadence → Int
  | months origin _ => origin
  | seconds origin _ => origin

/-- The number of the month or of the second of a time. -/
def place (c : Cadence) (t : Timestamp) : Int :=
  match c with
  | months _ _ => t.date.monthIndex
  | seconds _ _ => t.seconds

/-- How many steps fit between the first start and a time; negative before the first start. -/
def quotient (c : Cadence) (t : Timestamp) : Int := (c.place t - c.origin) / c.step

/-- The sums and products of the arithmetic of periods fit into 64 bits, and its results are those
of the integers. -/
structure Exact (c : Cadence) : Prop where
  origin : Fits 64 c.origin
  step_pos : 0 < c.step
  step : Fits 64 c.step
  place : ∀ t, Fits 64 (c.place t)
  gap : ∀ t, Fits 64 (c.place t - c.origin)
  quotient : ∀ t, Fits 64 (c.quotient t)
  quotient_succ : ∀ t, Fits 64 (c.quotient t + 1)
  ended_eq : ∀ t, t.nano = 0 → c.ended t = (c.quotient t).toNat
  firstFrom_mem : ∀ t, t.nano = 0 →
    (c.quotient t).toNat ≤ c.firstFrom t ∧ c.firstFrom t ≤ (c.quotient t + 1).toNat
  index_succ : ∀ i s, c.start? i = some s → Fits 64 (i + 1)

theorem monthIndex_mem (d : Date) : -3145728 ≤ d.monthIndex ∧ d.monthIndex < 3145728 := by
  have hy := d.year_mem
  have hdiv := d.monthIndex_div
  simp only [firstYear, lastYear] at hy
  omega

theorem place_mem (c : Cadence) (t : Timestamp) :
    -(calendarSeconds : Int) ≤ c.place t ∧ c.place t < calendarSeconds := by
  have hcal : 3145728 ≤ calendarSeconds := by decide
  have hm := monthIndex_mem t.date
  have hs := t.lt_calendarSeconds
  cases c <;> simp only [place] <;> omega

theorem ended_eq_quotient (hc : 0 < c.step) (ht : t.nano = 0) :
    c.ended t = (c.quotient t).toNat := by
  cases c with
  | months origin step => rfl
  | seconds origin step =>
    have hstep : 0 < (step : Int) := Int.natCast_pos.mpr hc
    rw [ended, secondsSince_of_nano ht]
    change (t.seconds - origin) / step = (((t.seconds : Int) - origin) / step).toNat
    rcases Nat.le_total origin t.seconds with hle | hle
    · rw [← Int.natCast_sub hle, ← Int.natCast_ediv, Int.toNat_natCast]
    · have hneg : (t.seconds : Int) - origin ≤ 0 := by omega
      rw [Nat.sub_eq_zero_of_le hle, Nat.zero_div,
        Int.toNat_of_nonpos (Int.ediv_nonpos_of_nonpos_of_neg hneg hstep)]

/-- The first period from a time on is the one after those that have ended, or the next one. -/
theorem firstFrom_mem_quotient (hc : 0 < c.step) (ht : t.nano = 0) :
    (c.quotient t).toNat ≤ c.firstFrom t ∧ c.firstFrom t ≤ (c.quotient t + 1).toNat := by
  cases c with
  | months origin step =>
    change ((t.date.monthIndex - origin) / step).toNat ≤
        ((t.date.monthIndex - origin) / step + if _ then 1 else 0).toNat ∧
      ((t.date.monthIndex - origin) / step + if _ then 1 else 0).toNat ≤
        ((t.date.monthIndex - origin) / step + 1).toNat
    split <;> omega
  | seconds origin step =>
    have hstep : 0 < step := hc
    have hquotient := ended_eq_quotient hc ht
    rw [ended, secondsSince_of_nano ht] at hquotient
    have hsucc : (t.seconds - origin + step) / step = (t.seconds - origin) / step + 1 :=
      Nat.add_div_right _ hstep
    have hle : (t.seconds - origin + step - 1) / step ≤ (t.seconds - origin + step) / step :=
      Nat.div_le_div_right (Nat.sub_le _ 1)
    have hge : (t.seconds - origin) / step ≤ (t.seconds - origin + step - 1) / step :=
      Nat.div_le_div_right (by omega)
    simp only [firstFrom, secondsSince_of_nano ht]
    refine ⟨hquotient.symm.le.trans hge, ?_⟩
    rcases Nat.lt_or_ge t.seconds origin with hlt | hge
    · rw [Nat.sub_eq_zero_of_le hlt.le, Nat.zero_add, Nat.div_eq_of_lt (Nat.sub_lt hstep one_pos)]
      exact Nat.zero_le _
    · have hnonneg : 0 ≤ (seconds origin step).quotient t := by
        apply Int.ediv_nonneg
        · exact Int.sub_nonneg_of_le (Int.ofNat_le.mpr hge)
        · exact Int.natCast_nonneg _
      omega

end Cadence

namespace Plan

variable {p : Plan} {rule : Rule} {anchor s t before : Timestamp} {c : Cadence} {i n : Nat}

/-- The walk of a plan is not cut short before a time: the days of its periods are complete, they
are not the last ones of the calendar, and a period that the calendar lacks starts too late. -/
structure Reaches (p : Plan) (before : Timestamp) : Prop where
  not_exhausted : ∀ i s, p.cadence.start? i = some s → s < before → p.candidates s ≠ .exhausted
  daysOfWeek_eq : p.rule.frequency = .weekly → ∀ i s, p.cadence.start? i = some s → s < before →
    (daysOfWeek s.date).map Date.number = (List.range 7).map fun (n : Nat) => s.date.number + n
  le_second : ∀ i, p.cadence.start? i = none → (before.seconds : Int) ≤ p.cadence.second i
  exact : p.cadence.Exact

theorem map_number_daysOfWeek (h : WeekFits s) : (daysOfWeek s.date).map Date.number =
    (List.range 7).map fun (n : Nat) => s.date.number + n := by
  have hfirst := s.date.first_le
  unfold WeekFits at h
  rw [daysOfWeek, List.map_filterMap, List.filterMap_eq_map_iff_forall_eq_some]
  intro n hn
  rw [List.mem_range] at hn
  have hday : ∃ d, s.date.addDays? n = some d := by
    rw [Date.addDays?, Date.ofNumber?, dif_pos ⟨by omega, by omega⟩]
    exact ⟨_, rfl⟩
  obtain ⟨d, hd⟩ := hday
  have hnumber := Date.number_ofNumber?.mp hd
  have hnext : (d.addDays? 1).isSome = true := by
    rw [Date.addDays?, Date.ofNumber?, dif_pos ⟨by omega, by omega⟩]
    rfl
  rw [hd, Option.filter_some, if_pos hnext, Option.map_some, hnumber]

theorem candidates_ne_exhausted (hy : s.date.year ≤ 9999) : p.candidates s ≠ .exhausted := by
  intro h
  obtain ⟨-, n, hb, hn⟩ := exists_block (o := none) h
  obtain ⟨t, ht⟩ := Cadence.exists_seconds_of_year hy (blockEnd?_le hb)
  exact Option.some_ne_none t (ht.symm.trans hn)

/-- Where the calendar has no period, the exact start is later than any time. -/
theorem lt_second_of_none (hp : p.Lawful) (hi : p.cadence.start? i = none) (t : Timestamp) :
    (t.seconds : Int) < p.cadence.second i := by
  by_contra hle
  obtain ⟨s, hs⟩ := Cadence.exists_start hp.step_pos hp.second_nonneg (Int.not_lt.mp hle)
  exact Option.some_ne_none s (hs.symm.trans hi)

/-- The counts of seconds and of months in a period, at most a week and a year, are small. -/
theorem step_le (hc : cadence? rule anchor = some c) : c.step ≤ 604800 * rule.interval := by
  unfold cadence? at hc
  cases hf : rule.frequency <;> simp only [hf, Option.some.injEq, Option.map_eq_some_iff] at hc
  case weekly =>
    obtain ⟨d, -, rfl⟩ := hc
    exact Nat.le_refl _
  all_goals
    subst hc
    simp only [Cadence.step]
    omega

theorem origin_mem (hc : cadence? rule anchor = some c) :
    -(calendarSeconds : Int) ≤ c.origin ∧ c.origin < calendarSeconds := by
  have hcal : 3145728 ≤ calendarSeconds := by decide
  have hm := Cadence.monthIndex_mem anchor.date
  have hdiv := anchor.date.monthIndex_div
  have hs := anchor.lt_calendarSeconds
  have hday := anchor.seconds_div
  unfold cadence? at hc
  cases hf : rule.frequency <;> simp only [hf, Option.some.injEq, Option.map_eq_some_iff] at hc
  case weekly =>
    obtain ⟨d, -, rfl⟩ := hc
    have hd := (Timestamp.startOfDay d).lt_calendarSeconds
    rw [Timestamp.seconds_startOfDay] at hd
    simp only [Cadence.origin]
    omega
  all_goals
    subst hc
    simp only [Cadence.origin]
    omega

theorem exact_of_interval_le (hp : p.Lawful) (hc : cadence? rule anchor = some p.cadence)
    (hi : rule.interval ≤ 4294967295) : p.cadence.Exact := by
  have hcal : calendarSeconds < 17592186044416 := by decide
  have hstep := step_le hc
  have horigin := origin_mem hc
  have hquotient (t : Timestamp) : -(2 * calendarSeconds : Int) ≤ p.cadence.quotient t ∧
      p.cadence.quotient t ≤ 2 * calendarSeconds := by
    have hplace := p.cadence.place_mem t
    have habs := Int.natAbs_ediv_le_natAbs (p.cadence.place t - p.cadence.origin) p.cadence.step
    unfold Cadence.quotient
    omega
  constructor
  case step_pos => exact hp.step_pos
  case ended_eq =>
    intro t ht
    exact Cadence.ended_eq_quotient hp.step_pos ht
  case firstFrom_mem =>
    intro t ht
    exact Cadence.firstFrom_mem_quotient hp.step_pos ht
  case index_succ =>
    intro i s hs
    have hle := hp.le_second i
    have hlt := s.lt_calendarSeconds
    rw [Cadence.second_start hs] at hle
    rw [fits_64_iff]
    omega
  case origin | step =>
    rw [fits_64_iff]
    omega
  case place | gap =>
    intro t
    have hplace := p.cadence.place_mem t
    rw [fits_64_iff]
    omega
  case quotient | quotient_succ =>
    intro t
    have := hquotient t
    rw [fits_64_iff]
    omega

/-- The plan of a rule that a text can tell reaches every time that a text can tell. -/
theorem reaches_of_plain (hv : rule.Valid) (hi : rule.interval ≤ 4294967295)
    (hb : before.Plain) (hp : of? rule anchor = some p) : p.Reaches before := by
  have hlaw := lawful_of_valid hv hp
  obtain ⟨c, hc, rfl⟩ := of?_eq_some_iff.mp hp
  have hyear (s : Timestamp) (hs : s < before) : s.date.year ≤ 9999 :=
    (Date.year_le_of_le (Timestamp.date_le_of_le (Timestamp.le_of_lt hs))).trans hb.year_le
  constructor
  · intro i s _ hs
    exact candidates_ne_exhausted (hyear s hs)
  · intro _ i s _ hs
    exact map_number_daysOfWeek (weekFits_of_year (hyear s hs))
  · intro i hi
    exact (lt_second_of_none hlaw hi before).le
  · exact exact_of_interval_le hlaw hc hi

end Plan

/-- A walk leaves at a period without looking at its candidates only at the end of the window or of
the rule. -/
theorem Request.past_of_not_open {q : Request} {i : Nat} (h : q.plan.Reaches q.window.before)
    (ho : ∀ s, ¬ q.Open i s) : (q.window.before.seconds : Int) ≤ q.plan.cadence.second i ∨
      ∃ s, q.plan.cadence.start? i = some s ∧ q.endsBefore s = true := by
  cases hs : q.plan.cadence.start? i with
  | none => exact Or.inl (h.le_second i hs)
  | some s =>
    by_cases hb : s < q.window.before
    · right
      refine ⟨s, rfl, ?_⟩
      by_contra he
      exact ho s ⟨hs, hb, Bool.eq_false_iff.mpr he, h.not_exhausted i s hs hb⟩
    · left
      rw [Cadence.second_start hs]
      exact Int.ofNat_le.mpr (Timestamp.seconds_le_of_le (Timestamp.not_lt.mp hb))

namespace RuleSet

/-- A rule of a set that is read has a number of 32 bits as its interval. -/
theorem interval_le_of_tells {lines : List Line} {s : RuleSet} (h : Tells lines s) :
    ∀ r ∈ s.rule :: s.exceptRules, r.interval ≤ 4294967295 := by
  intro r hr
  obtain ⟨body, r', hb, rfl⟩ := h.exists_parse r hr
  exact (Rule.plain_of_parse hb).2.interval_le

/-- The rules of a set that is read have plans, and neither the calendar nor the width of numbers
cuts their walks short before the end of a window that is read. -/
theorem reaches_of_parse (rule after before : String) (s : RuleSet) (w : Window)
    (hs : RuleSet.parse rule.toList = .ok s)
    (hw : Window.parse after.toList before.toList = .ok w) :
    ∀ r ∈ s.rule :: s.exceptRules, ∃ p, Plan.of? r (r.anchor.getD w.after) = some p ∧
      p.Reaches w.before ∧ ∀ m i, (∀ t, ¬ (r.request p w m).Open i t) →
        (w.before.seconds : Int) ≤ p.cadence.second i ∨
          ∃ t, p.cadence.start? i = some t ∧ (r.request p w m).endsBefore t = true := by
  obtain ⟨lines, -, htells⟩ := parse_eq_ok_iff.mp hs
  obtain ⟨ha, hb⟩ := Window.parse_eq_ok_iff.mp hw
  have hwell := htells.wellFormed
  have hafter : w.after.Plain := Timestamp.plain_of_parse (Bound.parse_eq_ok_iff.mp ha)
  have hbefore : w.before.Plain := Timestamp.plain_of_parse (Bound.parse_eq_ok_iff.mp hb)
  intro r hr
  have hanchor : r.anchor = s.rule.anchor := by
    rcases List.mem_cons.mp hr with rfl | hr
    · rfl
    · exact hwell.anchor_eq r hr
  have hstart : 0 ≤ (r.anchor.getD w.after).date.year := by
    rw [hanchor]
    cases ha : s.rule.anchor with
    | none => exact hafter.year_nonneg
    | some anchor => exact (hwell.anchor_plain anchor ha).year_nonneg
  obtain ⟨c, -, hp⟩ := Plan.exists_plan r hstart
  have hreaches := Plan.reaches_of_plain (hwell.valid r hr) (interval_le_of_tells htells r hr)
    hbefore hp
  exact ⟨_, hp, hreaches, fun m i => Request.past_of_not_open (q := r.request _ w m) hreaches⟩

def rareYearsText : String :=
  "FREQ=YEARLY;INTERVAL=4294967295\nEXRULE:FREQ=HOURLY;BYMONTH=2\nDTSTART:0000-01-01"

/-- The years from the year 0 on that are 4294967295 years apart, without the hours of February. -/
def rareYears : RuleSet where
  rule := {
    frequency := .yearly
    interval := 4294967295
    anchor := some (.startOfDay ⟨yearStart 0, by decide, by decide⟩) }
  exceptRules := [{
    frequency := .hourly
    byMonth := .ofList [2]
    anchor := some (.startOfDay ⟨yearStart 0, by decide, by decide⟩) }]

theorem reaches_of_parse_rareYears :
    ∃ w : Window, RuleSet.parse rareYearsText.toList = .ok rareYears ∧
      Window.parse "0000-01-01".toList "9999-12-31T23:59:59".toList = .ok w ∧
      ∀ r ∈ rareYears.rule :: rareYears.exceptRules,
        ∃ p, Plan.of? r (r.anchor.getD w.after) = some p ∧ p.Reaches w.before := by
  have hs : RuleSet.parse rareYearsText.toList = .ok rareYears := rfl
  have hw : ∃ w, Window.parse "0000-01-01".toList "9999-12-31T23:59:59".toList = .ok w := ⟨_, rfl⟩
  obtain ⟨w, hw⟩ := hw
  refine ⟨w, hs, hw, ?_⟩
  intro r hr
  obtain ⟨p, hp, hreaches, -⟩ := reaches_of_parse _ _ _ _ _ hs hw r hr
  exact ⟨p, hp, hreaches⟩

end RuleSet

end Recurrence
