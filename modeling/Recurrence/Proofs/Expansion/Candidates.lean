import Recurrence.Proofs.Expansion.Period

/-!
# Candidates as lists of timestamps

`Plan.flatten` lists what a period yields. Days are crossed with the times of day; the result is
ascending because both are.
-/

namespace Recurrence

set_option autoImplicit false

open Calendar

namespace Plan

/-- The candidates of a period one by one. -/
def flatten (p : Plan) : Candidates → List Timestamp
  | .instants times => times
  | .days dates => dates.flatMap fun date => p.times.map (Timestamp.of date)
  | .skipTo _ => []
  | .exhausted => []

/-- The candidates of the period with a number; a period that the calendar lacks has none. -/
def period (p : Plan) (index : Nat) : List Timestamp :=
  match p.cadence.start? index with
  | some start => p.flatten (p.candidates start)
  | none => []

variable {rule : Rule} {anchor s t : Timestamp} {c : Cadence} {i : Nat} {p : Plan}

section Cross

variable {dates : List Date} {times : List TimeOfDay}

theorem mem_cross : t ∈ dates.flatMap (fun date => times.map (Timestamp.of date)) ↔
    t.nano = 0 ∧ t.date ∈ dates ∧ t.time ∈ times := by
  simp only [List.mem_flatMap, List.mem_map]
  constructor
  · intro h
    obtain ⟨d, hd, u, hu, rfl⟩ := h
    exact ⟨rfl, hd, hu⟩
  · intro h
    obtain ⟨hn, hd, hu⟩ := h
    exact ⟨_, hd, _, hu, Timestamp.of_date_time hn⟩

theorem map_of_ascending (d : Date) (ht : times.Pairwise fun a b => a.seconds < b.seconds) :
    (times.map (Timestamp.of d)).Pairwise (· < ·) := by
  rw [List.pairwise_map]
  apply ht.imp
  intro a b hab
  rw [Timestamp.lt_iff_seconds rfl rfl, Timestamp.seconds_of, Timestamp.seconds_of]
  omega

theorem cross_ascending (hd : dates.Pairwise (· < ·))
    (ht : times.Pairwise fun a b => a.seconds < b.seconds) :
    (dates.flatMap fun date => times.map (Timestamp.of date)).Pairwise (· < ·) := by
  apply List.pairwise_flatMap.mpr
  refine ⟨fun d _ => map_of_ascending d ht, ?_⟩
  apply hd.imp
  intro d d' hlt a ha b hb
  obtain ⟨u, -, rfl⟩ := List.mem_map.mp ha
  obtain ⟨v, -, rfl⟩ := List.mem_map.mp hb
  exact Timestamp.lt_iff.mpr (Or.inl hlt)

end Cross

theorem month_mem_of_allows {d : Date} (h : p.allows d = true) (hb : 1 ≤ d.month ∧ d.month ≤ 12) :
    d.month ∈ p.months := by
  simp only [allows, Bool.and_eq_true, allowsMonth, Bool.or_eq_true, List.any_eq_true,
    decide_eq_true_eq, exists_eq_right] at h
  unfold months
  split
  · exact List.mem_range'_1.mpr (by omega)
  · next he => exact h.1.1.1.resolve_left he

theorem days_ascending (hv : rule.Valid) (first : Date) :
    ((filled rule anchor c).days first).Pairwise (· < ·) := by
  apply List.Pairwise.filter
  cases hf : rule.frequency
  case yearly =>
    simp only [rule_filled, hf]
    exact daysOfMonths_ascending (months_ascending _) (months_mem hv)
  case monthly =>
    simp only [rule_filled, hf]
    exact daysOfMonth_ascending _ _
  case weekly =>
    simp only [rule_filled, hf]
    exact daysOfWeek_ascending _
  all_goals
    simp only [rule_filled, hf]
    exact List.pairwise_singleton _ _

theorem mem_days_iff (hv : rule.Valid) (hal : rule.frequency.Aligned s) 
    (hsub : rule.frequency.isSubDaily = false) (ht : t.nano = 0) :
    t.date ∈ (filled rule anchor c).days s.date ↔
      rule.frequency.Covers s t ∧ (filled rule anchor c).allows t.date = true ∧
        (rule.frequency = .weekly → (t.date.addDays? 1).isSome = true) := by
  have hmonth := t.date.month_mem
  have hle := Timestamp.le_iff_seconds hal.1 ht
  have hs := s.seconds_cast
  have hcast := t.seconds_cast
  have hday := t.time.lt_day
  have halign := hal.2
  unfold days
  rw [List.mem_filter, rule_filled]
  cases hf : rule.frequency <;>
    simp only [hf, Frequency.isSubDaily, Bool.true_eq_false, reduceCtorEq, false_implies, and_true,
      Frequency.Covers] at hsub halign ⊢
  case yearly =>
    have hmem : t.date ∈ (filled rule anchor c).months.flatMap (daysOfMonth s.date.year) ↔
        t.date.year = s.date.year ∧ t.date.month ∈ (filled rule anchor c).months := by
      rw [List.mem_flatMap]
      constructor
      · intro h
        obtain ⟨m, hm, hd⟩ := h
        have hr := months_mem hv m hm
        rw [mem_daysOfMonth hr.1 hr.2] at hd
        exact ⟨hd.1, hd.2 ▸ hm⟩
      · intro h
        obtain ⟨hy, hm⟩ := h
        exact ⟨_, hm, (mem_daysOfMonth hmonth.1 hmonth.2).mpr ⟨hy, rfl⟩⟩
    rw [hmem]
    constructor
    · intro h
      obtain ⟨⟨hy, -⟩, ha⟩ := h
      have := t.date.yearStart_year_le
      rw [hy] at this
      exact ⟨⟨hle.mpr (by omega), hy⟩, ha⟩
    · intro h
      obtain ⟨⟨-, hy⟩, ha⟩ := h
      exact ⟨⟨hy, month_mem_of_allows ha hmonth⟩, ha⟩
  case monthly =>
    have hm := s.date.month_mem
    rw [mem_daysOfMonth hm.1 hm.2]
    constructor
    · intro h
      obtain ⟨he, ha⟩ := h
      have hidx := (Date.monthIndex_eq_of_civil hm.1 hm.2).mpr he
      rw [← (Date.monthIndex_eq_of_civil hm.1 hm.2).mpr ⟨rfl, rfl⟩] at hidx
      have := t.date.monthStart_monthIndex_le
      rw [hidx] at this
      exact ⟨⟨hle.mpr (by omega), he⟩, ha⟩
    · intro h
      obtain ⟨⟨-, he⟩, ha⟩ := h
      exact ⟨he, ha⟩
  case weekly =>
    rw [mem_daysOfWeek, hle]
    constructor
    · intro h
      obtain ⟨⟨hw, he⟩, ha⟩ := h
      exact ⟨by omega, ha, fun _ => he⟩
    · intro h
      obtain ⟨hw, ha, he⟩ := h
      exact ⟨⟨by omega, he trivial⟩, ha⟩
  case daily =>
    rw [List.mem_singleton, hle]
    constructor
    · intro h
      obtain ⟨hd, ha⟩ := h
      rw [← hd] at hs
      exact ⟨by omega, ha⟩
    · intro h
      obtain ⟨hw, ha⟩ := h
      exact ⟨Date.ext (by omega), ha⟩

end Plan

end Recurrence
