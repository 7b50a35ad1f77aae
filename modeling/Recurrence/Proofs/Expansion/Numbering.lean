import Recurrence.Proofs.Expansion.Admission

/-!
# Numbers of periods

Numbers of periods and times go together: period 0 holds the anchor, a period is over when a later
one starts, and each of the two ways from a time to a number finds the period that it is meant to
find. `Cadence.Numbers` says so, and `Rule.exists_numbers` that it holds of every valid rule.
-/

namespace Recurrence

set_option autoImplicit false

open Calendar

/-- The period that begins with `start` ends at `t` or earlier: all of it lies before `t`. -/
def Frequency.EndsBy (f : Frequency) (start t : Timestamp) : Prop := ∀ x, f.Covers start x → x < t

/-- The periods have the order of their numbers and do not overlap. From a whole second, `firstFrom`
leads to the first period that does not start before it, and `ended`, once the first period has
started, to the last one that does not start after it; the periods before that one are over. -/
structure Cadence.Numbers (c : Cadence) (f : Frequency) (anchor : Timestamp) : Prop where
  covers_anchor : ∃ s, c.start? 0 = some s ∧ f.Covers s anchor
  start_lt : ∀ i j s t, c.start? i = some s → c.start? j = some t → i < j → s < t
  endsBy_start : ∀ i j s t, c.start? i = some s → c.start? j = some t → i < j → f.EndsBy s t
  firstFrom_le_iff : ∀ i s t, c.start? i = some s → t.nano = 0 → (c.firstFrom t ≤ i ↔ t ≤ s)
  endsBy_of_lt_ended : ∀ i t, t.nano = 0 → i < c.ended t →
    ∃ s, c.start? i = some s ∧ f.EndsBy s t
  start_ended_le : ∀ s t, c.start? 0 = some s → t.nano = 0 → s ≤ t →
    ∃ s', c.start? (c.ended t) = some s' ∧ s' ≤ t
  lt_start_of_ended_lt : ∀ i s t, c.start? i = some s → t.nano = 0 → c.ended t < i → t < s

namespace Plan

variable {rule : Rule} {anchor s t : Timestamp} {c : Cadence} {i : Nat}

theorem second_zero_le (hc : cadence? rule anchor = some c) : c.second 0 ≤ anchor.seconds := by
  have hdiv := anchor.date.monthIndex_div
  have hday := anchor.seconds_div
  cases hf : rule.frequency <;>
    simp only [cadence?, hf, Option.some.injEq, Option.map_eq_some_iff] at hc
  case yearly =>
    subst hc
    apply (Cadence.second_months_le_iff anchor).mpr
    omega
  case monthly =>
    subst hc
    apply (Cadence.second_months_le_iff anchor).mpr
    omega
  case weekly =>
    obtain ⟨d, hd, rfl⟩ := hc
    rw [Date.weekStart?, Date.addDays?, Date.number_ofNumber?] at hd
    have hd' := d.index_cast
    have hanchor := anchor.date.index_cast
    simp only [Cadence.second]
    omega
  all_goals
    subst hc
    simp only [Cadence.second]
    omega

/-- The periods are numbered from the one that holds the anchor. -/
theorem exists_start_zero (hc : cadence? rule anchor = some c) (hi : rule.interval ≠ 0) :
    ∃ s, c.start? 0 = some s ∧ rule.frequency.Covers s anchor := by
  have hzero := second_zero_le hc
  obtain ⟨s, hs⟩ := Cadence.exists_start (step_pos hc hi) (second_zero_nonneg hc) hzero
  refine ⟨s, hs, (Cadence.start_le_iff hs).mpr hzero, ?_⟩
  have hdiv := anchor.date.monthIndex_div
  have hday := anchor.seconds_div
  have hmod := anchor.seconds_mod
  have hlt := anchor.time.lt_day
  cases hf : rule.frequency <;>
    simp only [cadence?, hf, Option.some.injEq, Option.map_eq_some_iff] at hc ⊢
  case yearly =>
    subst hc
    have hstart := monthIndex_start_yearly hs
    have hm := monthIndex_start hs
    omega
  case monthly =>
    subst hc
    have hm := s.date.month_mem
    have hstart := monthIndex_start hs
    rw [(Date.monthIndex_eq_of_civil hm.1 hm.2).mpr ⟨rfl, rfl⟩] at hstart
    apply (Date.monthIndex_eq_of_civil hm.1 hm.2).mp
    omega
  case weekly =>
    obtain ⟨d, hd, rfl⟩ := hc
    have hstart := start_seconds hs
    rw [Date.weekStart?, Date.addDays?, Date.number_ofNumber?] at hd
    have hd' := d.index_cast
    have hanchor := anchor.date.index_cast
    omega
  all_goals
    subst hc
    have hstart := start_seconds hs
    omega

/-- A period is over as soon as the second of the next one has come. -/
theorem endsBy_of_second_succ_le (hc : cadence? rule anchor = some c) (hi : rule.interval ≠ 0)
    (hs : c.start? i = some s) (h : c.second (i + 1) ≤ t.seconds) :
    rule.frequency.EndsBy s t := by
  intro x hx
  rw [← Timestamp.not_le]
  intro hle
  have hlt := lt_second_succ hc hi hs hx
  have := Timestamp.seconds_le_of_le hle
  omega

theorem numbers_of_cadence? (hc : cadence? rule anchor = some c) (hi : rule.interval ≠ 0) :
    c.Numbers rule.frequency anchor := by
  have hstep := step_pos hc hi
  have h0 := second_zero_nonneg hc
  have hmono := Cadence.second_strictMono hstep
  constructor
  case covers_anchor => exact exists_start_zero hc hi
  case start_lt =>
    intro i j s t hs ht hij
    exact Cadence.start_lt hstep hs ht hij
  case endsBy_start =>
    intro i j s t hs ht hij
    apply endsBy_of_second_succ_le hc hi hs
    rw [← Cadence.second_start ht]
    exact hmono.monotone hij
  case firstFrom_le_iff =>
    intro i s t hs ht
    exact Cadence.firstFrom_le_iff hstep ht hs
  case endsBy_of_lt_ended =>
    intro i t ht hlt
    have hnext := (Cadence.lt_ended_iff hstep ht).mp hlt
    obtain ⟨s, hs⟩ := Cadence.exists_start hstep h0 ((hmono (Nat.lt_succ_self i)).le.trans hnext)
    exact ⟨s, hs, endsBy_of_second_succ_le hc hi hs hnext⟩
  case start_ended_le =>
    intro s t hs ht hle
    have hsecond : c.second (c.ended t) ≤ t.seconds := by
      cases hn : c.ended t with
      | zero => exact (Cadence.start_le_iff hs).mp hle
      | succ n => exact (Cadence.lt_ended_iff hstep ht).mp (hn ▸ Nat.lt_succ_self n)
    obtain ⟨s', hs'⟩ := Cadence.exists_start hstep h0 hsecond
    exact ⟨s', hs', (Cadence.start_le_iff hs').mpr hsecond⟩
  case lt_start_of_ended_lt =>
    intro i s t hs _ hlt
    rw [Cadence.lt_start_iff hs]
    exact Cadence.seconds_lt_second_of_ended_lt hstep hlt

end Plan

namespace Rule

/-- A valid rule has periods from its anchor on, and their numbers are exact. -/
theorem exists_numbers (rule : Rule) (anchor : Timestamp) (hv : rule.Valid)
    (hy : 0 ≤ anchor.date.year) :
    ∃ p, Plan.of? rule anchor = some p ∧ p.cadence.Numbers rule.frequency anchor := by
  obtain ⟨c, hc, hp⟩ := Plan.exists_plan rule hy
  exact ⟨_, hp, Plan.numbers_of_cadence? hc hv.interval_pos⟩

/-- Every third month. -/
def quarterly : Rule := { frequency := .monthly, interval := 3 }

/-- The periods are whole months, also where the anchor is late in its month. -/
def lateJanuary : Timestamp := .of ⟨yearStart 2024 + 30, by decide, by decide⟩ ⟨37800, by decide⟩

theorem exists_numbers_quarterly :
    quarterly.Valid ∧ 0 ≤ lateJanuary.date.year ∧
    ∃ p, Plan.of? quarterly lateJanuary = some p ∧ p.cadence.Numbers .monthly lateJanuary := by
  have hv : quarterly.Valid := by decide
  have hy : 0 ≤ lateJanuary.date.year := by decide
  exact ⟨hv, hy, exists_numbers quarterly lateJanuary hv hy⟩

/-- On the first of April both ways lead to the second quarter, on the first of May `firstFrom`
leads to the third. -/
example :
    let quarters := Cadence.months (2024 * 12) 3
    let april : Timestamp := .startOfDay ⟨yearStart 2024 + 91, by decide, by decide⟩
    let may : Timestamp := .startOfDay ⟨yearStart 2024 + 121, by decide, by decide⟩
    quarters.ended april = 1 ∧ quarters.firstFrom april = 1 ∧
      quarters.ended may = 1 ∧ quarters.firstFrom may = 2 := by decide

end Rule

end Recurrence
