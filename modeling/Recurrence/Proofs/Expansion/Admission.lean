import Recurrence.Proofs.Expansion.Positions
import Recurrence.Proofs.Expansion.SubDaily

/-!
# What a period yields

The candidates of a period are ascending and lie in it. Without positions they are exactly the
whole seconds of the period whose date and time of day the rule allows.
-/

namespace Recurrence

set_option autoImplicit false

open Calendar

/-- Whether the rule, started at `anchor`, admits `t` in the period that begins with `start`. -/
structure Rule.Admits (r : Rule) (anchor start t : Timestamp) : Prop where
  nano : t.nano = 0
  covered : r.frequency.Covers start t
  date : r.AllowsDate anchor.date t.date
  time : r.AllowsTime anchor.time t.time

namespace Plan

variable {rule : Rule} {anchor s t : Timestamp} {c : Cadence} {i : Nat}

/-- The calendar has the whole week of a day; its last day does not count. -/
def WeekFits (s : Timestamp) : Prop := s.date.number + 7 < yearStart (lastYear + 1)

theorem weekFits_of_year (h : s.date.year ≤ 9999) : WeekFits s := by
  have hlt := s.date.lt_yearStart_year
  have hle := yearStart_strictMono.le_iff_le.mpr (show s.date.year + 1 ≤ 10000 by omega)
  have h1 : yearStart 10000 + 7 < yearStart (lastYear + 1) := by decide
  unfold WeekFits
  omega

theorem addDays?_isSome_of_covers (hal : Frequency.weekly.Aligned s) (hw : WeekFits s)
    (h : Frequency.weekly.Covers s t) : (t.date.addDays? 1).isSome = true := by
  have hsec := s.seconds_cast
  have ht := t.seconds_cast
  have htday := t.time.lt_day
  have hfirst := t.date.first_le
  have h0 := hal.2
  have h := h.2
  unfold WeekFits at hw
  dsimp only at h h0
  rw [Date.addDays?, Date.ofNumber?, dif_pos ⟨by omega, by omega⟩]
  rfl

theorem mem_times_iff (hsub : rule.frequency.isSubDaily = false) {u : TimeOfDay} :
    u ∈ (filled rule anchor c).times ↔ rule.AllowsTime anchor.time u := by
  have hm : rule.frequency ≠ .minutely := by
    intro h
    rw [h] at hsub
    cases hsub
  have hs : rule.frequency ≠ .secondly := by
    intro h
    rw [h] at hsub
    cases hsub
  rw [mem_times]
  simp only [filled, mem_valuesOr]
  constructor
  · intro h
    obtain ⟨hh, hmin, hsec⟩ := h
    refine ⟨?_, ?_, ?_⟩
    · simpa [hsub] using hh
    · simpa [hm, hs] using hmin
    · simpa [hs] using hsec
  · intro h
    obtain ⟨hh, hmin, hsec⟩ := h
    refine ⟨?_, ?_, ?_⟩
    · simpa [hsub] using hh
    · simpa [hm, hs] using hmin
    · simpa [hs] using hsec

theorem allowsTime_iff (hsub : rule.frequency.isSubDaily = true) {u : TimeOfDay} :
    rule.AllowsTime anchor.time u ↔ permits rule.byHour u.hour = true ∧
      (rule.frequency = .hourly ∨ permits rule.byMinute u.minute = true) ∧
      (rule.frequency = .hourly → u.minute ∈ (filled rule anchor c).minutes) ∧
      (rule.frequency ≠ .secondly → u.second ∈ (filled rule anchor c).seconds) ∧
      (rule.frequency = .secondly → permits rule.bySecond u.second = true) := by
  simp only [filled, mem_valuesOr, permits_iff]
  constructor
  · intro h
    obtain ⟨hh, hm, hs⟩ := h
    cases hf : rule.frequency <;> simp [hf, Frequency.isSubDaily] at hsub hh hm hs ⊢ <;> tauto
  · intro h
    obtain ⟨hh, hm, hm', hs, hs'⟩ := h
    cases hf : rule.frequency <;> simp [hf, Frequency.isSubDaily] at hsub hh hm hm' hs hs' <;>
      constructor <;> simp [hf, Frequency.isSubDaily] <;> tauto

theorem flatten_ofSkip (p : Plan) (u : Option Timestamp) : p.flatten (.ofSkip u) = [] := by
  cases u <;> rfl

theorem pick_of_isEmpty {p : Plan} (h : p.rule.byPosition.isEmpty = true)
    (times : List Timestamp) : p.pick times = times := by
  rw [pick, if_pos h]

theorem mem_subDaily_iff (hpos : rule.byPosition.isEmpty = true)
    (hal : rule.frequency.Aligned s) (hsub : rule.frequency.isSubDaily = true) :
    t ∈ (filled rule anchor c).flatten ((filled rule anchor c).subDaily s) ↔
      rule.Admits anchor s t := by
  rw [subDaily_eq hsub]
  by_cases ht : t.nano = 0
  · have hblock : rule.Admits anchor s t → (filled rule anchor c).blockEnd? s = none := by
      intro h
      obtain ⟨-, hc, hd, htime⟩ := h
      have hclock := (covers_iff_clock hal hsub ht).mp hc
      -- a block takes in whole periods, so `t` may stand for `s`
      rw [← blockEnd?_congr hclock.1 hclock.2.1 hclock.2.2.1, blockEnd?_eq_none_iff]
      rw [allowsTime_iff (c := c) hsub] at htime
      exact ⟨allows_iff.mpr hd, htime.1, htime.2.1⟩
    cases hb : (filled rule anchor c).blockEnd? s with
    | some n =>
      rw [flatten_ofSkip]
      constructor
      · intro h
        cases h
      · intro h
        rw [hblock h] at hb
        cases hb
    | none =>
      dsimp only [flatten]
      rw [pick_of_isEmpty hpos, mem_instantsAt hal hsub ht]
      constructor
      · intro h
        obtain ⟨hc, hm, hs, hs'⟩ := h
        have hclock := (covers_iff_clock hal hsub ht).mp hc
        rw [← blockEnd?_congr hclock.1 hclock.2.1 hclock.2.2.1, blockEnd?_eq_none_iff] at hb
        exact ⟨ht, hc, allows_iff.mp hb.1,
          (allowsTime_iff hsub).mpr ⟨hb.2.1, hb.2.2, hm, hs, hs'⟩⟩
      · intro h
        obtain ⟨-, hc, -, htime⟩ := h
        exact ⟨hc, ((allowsTime_iff hsub).mp htime).2.2⟩
  · constructor
    · intro h
      cases hb : (filled rule anchor c).blockEnd? s with
      | some n =>
        rw [hb] at h
        dsimp only at h
        rw [flatten_ofSkip] at h
        cases h
      | none =>
        rw [hb] at h
        exact absurd (nano_instantsAt hal.1 (mem_of_mem_pick h)) ht
    · intro h
      exact absurd h.nano ht

theorem mem_flatten_iff (hv : rule.Valid) (hpos : rule.byPosition.isEmpty = true)
    (hal : rule.frequency.Aligned s) (hw : WeekFits s) :
    t ∈ (filled rule anchor c).flatten ((filled rule anchor c).candidates s) ↔
      rule.Admits anchor s t := by
  unfold candidates
  split
  · next hsub => exact mem_subDaily_iff hpos hal hsub
  · next hsub =>
    have hsub : rule.frequency.isSubDaily = false := by simpa using hsub
    simp only [rule_filled, hpos, if_true, flatten]
    rw [mem_cross, mem_times_iff hsub]
    constructor
    · intro h
      obtain ⟨hn, hd, htime⟩ := h
      obtain ⟨hc, ha, -⟩ := (mem_days_iff hv hal hsub hn).mp hd
      exact ⟨hn, hc, allows_iff.mp ha, htime⟩
    · intro h
      obtain ⟨hn, hc, hd, htime⟩ := h
      refine ⟨hn, (mem_days_iff hv hal hsub hn).mpr ⟨hc, allows_iff.mpr hd, ?_⟩, htime⟩
      intro hf
      rw [hf] at hal hc
      exact addDays?_isSome_of_covers hal hw hc

theorem flatten_ascending (hv : rule.Valid) (s : Timestamp) :
    ((filled rule anchor c).flatten ((filled rule anchor c).candidates s)).Pairwise (· < ·) := by
  unfold candidates
  split
  · next hsub =>
    rw [subDaily_eq hsub]
    split
    · rw [flatten_ofSkip]
      exact List.Pairwise.nil
    · exact pick_ascending
        (instantsAt_ascending _ _ (valuesOr_ascending _ _) (valuesOr_ascending _ _))
  · dsimp only
    split
    · exact cross_ascending (days_ascending hv _) times_ascending
    · exact OrderedSet.ascending _

/-- Positions included, the candidates lie in their period. -/
theorem covers_of_mem (hv : rule.Valid) (hal : rule.frequency.Aligned s)
    (h : t ∈ (filled rule anchor c).flatten ((filled rule anchor c).candidates s)) :
    t.nano = 0 ∧ rule.frequency.Covers s t := by
  unfold candidates at h
  split at h
  · next hsub =>
    rw [subDaily_eq hsub] at h
    split at h
    · rw [flatten_ofSkip] at h
      cases h
    · have hmem := mem_of_mem_pick h
      have hn := nano_instantsAt hal.1 hmem
      exact ⟨hn, ((mem_instantsAt hal hsub hn).mp hmem).1⟩
  · next hsub =>
    have hsub : rule.frequency.isSubDaily = false := by simpa using hsub
    have hday : t.nano = 0 ∧ t.date ∈ (filled rule anchor c).days s.date ∧
        t.time ∈ (filled rule anchor c).times := by
      dsimp only at h
      split at h
      · exact mem_cross.mp h
      · exact mem_of_mem_pickFromDays h
    exact ⟨hday.1, ((mem_days_iff hv hal hsub hday.1).mp hday.2.1).1⟩

theorem exists_plan (rule : Rule) (ha : 0 ≤ anchor.date.year) :
    ∃ c, cadence? rule anchor = some c ∧ of? rule anchor = some (filled rule anchor c) := by
  have hc : ∃ c, cadence? rule anchor = some c := by
    unfold cadence?
    split
    case h_3 =>
      have hle := anchor.date.yearStart_year_le
      have hmono := yearStart_strictMono.le_iff_le.mpr ha
      have hlt := anchor.date.lt_end
      have h0 : yearStart firstYear + 7 ≤ yearStart 0 := by decide
      rw [Date.weekStart?, Date.addDays?, Date.ofNumber?, dif_pos ⟨by omega, by omega⟩]
      exact ⟨_, rfl⟩
    all_goals exact ⟨_, rfl⟩
  obtain ⟨c, hc⟩ := hc
  exact ⟨c, hc, of?_eq_some_iff.mpr ⟨c, hc, rfl⟩⟩

end Plan

/-- The periods of a rule without positions list exactly what the rule admits. -/
theorem candidates_eq_admitted (rule : Rule) (anchor : Timestamp) (hv : rule.Valid)
    (hpos : rule.byPosition.isEmpty = true) (ha : 0 ≤ anchor.date.year) :
    ∃ p, Plan.of? rule anchor = some p ∧
      p.times = (List.range p.timesPerDay).filterMap p.timeAt? ∧
      ∀ i s, p.cadence.start? i = some s → s.date.year ≤ 9999 →
        (p.flatten (p.candidates s)).Pairwise (· < ·) ∧
        ∀ t, t ∈ p.flatten (p.candidates s) ↔ rule.Admits anchor s t := by
  obtain ⟨c, hc, hp⟩ := Plan.exists_plan rule ha
  refine ⟨_, hp, ?_, ?_⟩
  · exact Plan.times_eq_timeAt? (Plan.valuesOr_length_pos _ _) (Plan.valuesOr_length_pos _ _)
  · intro i s hs hy
    have hal := Plan.aligned_start hc hs
    exact ⟨Plan.flatten_ascending hv s,
      fun t => Plan.mem_flatten_iff hv hpos hal (Plan.weekFits_of_year hy)⟩

def lastFriday : Rule := { frequency := .monthly, byDay := .singleton ⟨some (-1), .friday⟩ }

def newYear : Timestamp := .startOfDay ⟨yearStart 2024, by decide, by decide⟩

theorem candidates_lastFriday :
    lastFriday.Valid ∧ lastFriday.byPosition.isEmpty = true ∧ 0 ≤ newYear.date.year ∧
    ∃ p, Plan.of? lastFriday newYear = some p ∧
      p.times = (List.range p.timesPerDay).filterMap p.timeAt? ∧
      ∀ i s, p.cadence.start? i = some s → s.date.year ≤ 9999 →
        (p.flatten (p.candidates s)).Pairwise (· < ·) ∧
        ∀ t, t ∈ p.flatten (p.candidates s) ↔ lastFriday.Admits newYear s t :=
  have hv : lastFriday.Valid := by decide
  have ha : 0 ≤ newYear.date.year := by decide
  ⟨hv, rfl, ha, candidates_eq_admitted lastFriday newYear hv rfl ha⟩

end Recurrence
