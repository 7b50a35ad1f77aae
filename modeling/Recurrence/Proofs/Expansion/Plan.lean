import Recurrence.Expansion.Candidates
import Recurrence.Proofs.Calendar.Clock
import Recurrence.Rule.Valid

/-!
# Times of day of a plan

A part of the rule gives the values of a list, or the anchor gives one. For a valid rule the lists
name times of day that exist, so a day has exactly `timesPerDay` of them.
-/

namespace Recurrence

set_option autoImplicit false

open Calendar

namespace OrderedSet

theorem isEmpty_iff {α : Type} [LT α] {s : OrderedSet α} : s.isEmpty = true ↔ s.toList = [] :=
  List.isEmpty_iff

theorem not_mem_of_isEmpty {α : Type} [LT α] {s : OrderedSet α} (h : s.isEmpty = true) (a : α) :
    a ∉ s := by
  rw [← mem_toList, isEmpty_iff.mp h]
  exact List.not_mem_nil

end OrderedSet

namespace Rule.Valid

variable {r : Rule} (hv : r.Valid)
include hv

theorem month_le {m : Nat} (h : m ∈ r.byMonth) : 1 ≤ m ∧ m ≤ 12 := by
  have := hv.month_mem m (List.mem_map_of_mem h)
  simp only [Bounds.Holds, Bounds.month] at this
  omega

theorem hour_lt {n : Nat} (h : n ∈ r.byHour) : n < 24 := by
  have := hv.hour_mem n (List.mem_map_of_mem h)
  simp only [Bounds.Holds, Bounds.hour] at this
  omega

theorem minute_lt {n : Nat} (h : n ∈ r.byMinute) : n < 60 := by
  have := hv.minute_mem n (List.mem_map_of_mem h)
  simp only [Bounds.Holds, Bounds.minute] at this
  omega

theorem second_lt {n : Nat} (h : n ∈ r.bySecond) : n < 60 := by
  have := hv.second_mem n (List.mem_map_of_mem h)
  simp only [Bounds.Holds, Bounds.minute] at this
  omega

end Rule.Valid

namespace Plan

variable {rule : Rule} {anchor : Timestamp} {c : Cadence} {p : Plan}

theorem of?_eq_some_iff :
    of? rule anchor = some p ↔ ∃ c, cadence? rule anchor = some c ∧ filled rule anchor c = p := by
  rw [of?, Option.map_eq_some_iff]

@[simp] theorem rule_filled : (filled rule anchor c).rule = rule := rfl

section ValuesOr

variable {values : OrderedSet Nat} {n a : Nat}

theorem mem_valuesOr :
    n ∈ valuesOr values a ↔ n ∈ values ∨ values.isEmpty = true ∧ n = a := by
  unfold valuesOr
  split
  · next h =>
    have := OrderedSet.not_mem_of_isEmpty h n
    simp [h, this]
  · next h => simp [h, OrderedSet.mem_toList]

theorem valuesOr_ascending (values : OrderedSet Nat) (a : Nat) :
    (valuesOr values a).Pairwise (· < ·) := by
  unfold valuesOr
  split
  · exact List.pairwise_singleton _ a
  · exact values.ascending

theorem valuesOr_length_pos (values : OrderedSet Nat) (a : Nat) :
    0 < (valuesOr values a).length := by
  unfold valuesOr
  split
  · exact Nat.one_pos
  · next h =>
    rw [OrderedSet.isEmpty_iff] at h
    exact List.length_pos_iff.mpr h

theorem permits_iff : permits values n = true ↔ values.isEmpty = true ∨ n ∈ values := by
  simp [permits, ← OrderedSet.mem_toList]

end ValuesOr

theorem mem_times {t : TimeOfDay} :
    t ∈ p.times ↔ t.hour ∈ p.hours ∧ t.minute ∈ p.minutes ∧ t.second ∈ p.seconds := by
  change t ∈ p.hours.flatMap (fun h => TimeOfDay.ofHour h p.minutes p.seconds) ↔ _
  simp only [List.mem_flatMap, TimeOfDay.mem_ofHour]
  constructor
  · intro h
    obtain ⟨h, hh, rfl, hm, hs⟩ := h
    exact ⟨hh, hm, hs⟩
  · intro h
    obtain ⟨hh, hm, hs⟩ := h
    exact ⟨_, hh, rfl, hm, hs⟩

theorem times_ascending :
    (filled rule anchor c).times.Pairwise fun a b => a.seconds < b.seconds :=
  TimeOfDay.ofHours_ascending (valuesOr_ascending _ _) (valuesOr_ascending _ _)
    (valuesOr_ascending _ _)

theorem hours_lt (hv : rule.Valid) : ∀ n ∈ (filled rule anchor c).hours, n < 24 := by
  intro n hn
  rcases mem_valuesOr.mp hn with h | ⟨-, rfl⟩
  · exact hv.hour_lt h
  · exact anchor.time.clock_lt.1

theorem minutes_lt (hv : rule.Valid) : ∀ n ∈ (filled rule anchor c).minutes, n < 60 := by
  intro n hn
  rcases mem_valuesOr.mp hn with h | ⟨-, rfl⟩
  · exact hv.minute_lt h
  · exact anchor.time.clock_lt.2.1

theorem seconds_lt (hv : rule.Valid) : ∀ n ∈ (filled rule anchor c).seconds, n < 60 := by
  intro n hn
  rcases mem_valuesOr.mp hn with h | ⟨-, rfl⟩
  · exact hv.second_lt h
  · exact anchor.time.clock_lt.2.2

theorem length_times (hv : rule.Valid) :
    (filled rule anchor c).times.length = (filled rule anchor c).timesPerDay :=
  TimeOfDay.length_ofHours (hours_lt hv) (minutes_lt hv) (seconds_lt hv)

theorem timesPerDay_pos : 0 < (filled rule anchor c).timesPerDay :=
  Nat.mul_pos (Nat.mul_pos (valuesOr_length_pos _ _) (valuesOr_length_pos _ _))
    (valuesOr_length_pos _ _)

theorem mem_byMonth {m : Nat} (h : m ∈ (filled rule anchor c).byMonth) :
    m = anchor.date.month ∨ m ∈ rule.byMonth := by
  simp only [filled] at h
  split at h
  · exact Or.inl (List.mem_singleton.mp h)
  · exact Or.inr h

theorem months_mem (hv : rule.Valid) :
    ∀ m ∈ (filled rule anchor c).months, 1 ≤ m ∧ m ≤ 12 := by
  intro m hm
  unfold months at hm
  split at hm
  · rw [List.mem_range'_1] at hm
    omega
  · rcases mem_byMonth hm with rfl | hm
    · exact anchor.date.month_mem
    · exact hv.month_le hm

theorem months_ascending (p : Plan) : p.months.Pairwise (· < ·) := by
  unfold months
  split
  · exact List.pairwise_lt_range' 1
  · exact p.byMonth.ascending

end Plan

end Recurrence
