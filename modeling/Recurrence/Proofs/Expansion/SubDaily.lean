import Recurrence.Proofs.Expansion.Candidates

/-!
# Hours, minutes and seconds

A period shorter than a day is either blocked up to a second that its start shows, or it lists its
instants (`subDaily_eq`). A block holds until it ends (`blockEnd?_stable`), so the periods that a
walk leaps over are those that the block covers.
-/

namespace Recurrence.Plan

set_option autoImplicit false

open Calendar

variable {rule : Rule} {anchor s t : Timestamp} {c : Cadence} {p : Plan}

theorem startOfDay_next (d : Date) : (d.addDays? 1).map Timestamp.startOfDay =
    Timestamp.ofSeconds? (d.index * 86400 + 86400) := by
  ext t
  have hd := d.index_cast
  have hcast := t.seconds_cast
  have hday := t.time.lt_day
  rw [Timestamp.ofSeconds?_eq_some_iff, Option.map_eq_some_iff]
  constructor
  · intro h
    obtain ⟨e, he, rfl⟩ := h
    rw [Date.addDays?, Date.number_ofNumber?] at he
    have := e.index_cast
    rw [Timestamp.seconds_startOfDay]
    exact ⟨rfl, by omega⟩
  · intro h
    obtain ⟨hn, hs⟩ := h
    refine ⟨t.date, ?_, ?_⟩
    · rw [Date.addDays?, Date.number_ofNumber?]
      omega
    · apply Timestamp.eq_of_seconds rfl hn
      have := t.date.index_cast
      rw [Timestamp.seconds_startOfDay]
      omega

/-- The second before which no candidate can come, if the start of a period shows one. -/
def blockEnd? (p : Plan) (start : Timestamp) : Option Nat :=
  let midnight := start.date.index * 86400
  let hour := start.time.hour
  let minute := start.time.minute
  if p.allows start.date = false then some (midnight + 86400)
  else if permits p.rule.byHour hour = false then some (midnight + hour * 3600 + 3600)
  else if p.rule.frequency ≠ .hourly ∧ permits p.rule.byMinute minute = false then
    some (midnight + hour * 3600 + minute * 60 + 60)
  else none

/-- The instants of an hour, a minute or a second that is not blocked. -/
def instantsAt (p : Plan) (start : Timestamp) : List Timestamp :=
  match p.rule.frequency with
  | .hourly =>
    (TimeOfDay.ofHour start.time.hour p.minutes p.seconds).map (Timestamp.of start.date)
  | .minutely => (p.seconds.filterMap
      (TimeOfDay.ofClock? start.time.hour start.time.minute)).map (Timestamp.of start.date)
  | .secondly => if permits p.rule.bySecond start.time.second then [start] else []
  | .daily | .weekly | .monthly | .yearly => []

theorem map_instants (d : Date) (h m : Nat) (seconds : List Nat) :
    (seconds.filterMap (TimeOfDay.ofClock? h m)).map (Timestamp.of d) =
      seconds.filterMap fun s => (TimeOfDay.ofClock? h m s).map (Timestamp.of d) := by
  rw [List.map_filterMap]

theorem subDaily_eq (hsub : p.rule.frequency.isSubDaily = true) :
    p.subDaily s = match p.blockEnd? s with
      | some n => .ofSkip (Timestamp.ofSeconds? n)
      | none => .instants (p.pick (p.instantsAt s)) := by
  unfold subDaily blockEnd? instantsAt
  simp only [startOfDay_next, Bool.not_eq_true', TimeOfDay.ofHour, List.map_flatMap, map_instants]
  by_cases ha : p.allows s.date = false
  · simp only [if_pos ha]
  by_cases hh : permits p.rule.byHour s.time.hour = false
  · simp only [if_neg ha, if_pos hh]
  simp only [if_neg ha, if_neg hh]
  cases hf : p.rule.frequency <;>
    simp only [hf, Frequency.isSubDaily, Bool.false_eq_true, ne_eq, not_true_eq_false, reduceCtorEq,
      not_false_eq_true, false_and, true_and, if_false] at hsub ⊢
  case minutely =>
    split <;> rfl
  case secondly =>
    by_cases hm : permits p.rule.byMinute s.time.minute = false
    · simp only [if_pos hm]
    · simp only [if_neg hm]
      split <;> rfl

theorem covers_iff_clock {f : Frequency} (hal : f.Aligned s) (hsub : f.isSubDaily = true)
    (ht : t.nano = 0) : f.Covers s t ↔ t.date = s.date ∧ t.time.hour = s.time.hour ∧
      (f ≠ .hourly → t.time.minute = s.time.minute) ∧
      (f = .secondly → t.time.second = s.time.second) := by
  have hle := Timestamp.le_iff_seconds hal.1 ht
  have hs := s.seconds_cast
  have hcast := t.seconds_cast
  have hsday := s.time.lt_day
  have htday := t.time.lt_day
  have hdate : t.date = s.date ↔ t.date.number = s.date.number :=
    ⟨congrArg Date.number, Date.ext⟩
  have halign := hal.2
  unfold Frequency.Covers TimeOfDay.hour TimeOfDay.minute TimeOfDay.second
  rw [hle, hdate]
  cases f <;> simp only [Frequency.isSubDaily, Bool.false_eq_true] at hsub halign ⊢
  case hourly => simp; omega
  case minutely => simp; omega
  case secondly => simp; omega

theorem blockEnd?_eq_none_iff : p.blockEnd? t = none ↔
    p.allows t.date = true ∧ permits p.rule.byHour t.time.hour = true ∧
      (p.rule.frequency = .hourly ∨ permits p.rule.byMinute t.time.minute = true) := by
  rw [← Bool.not_eq_false (p.allows t.date), ← Bool.not_eq_false (permits p.rule.byHour _),
    ← Bool.not_eq_false (permits p.rule.byMinute _),
    ← Classical.not_not (a := _ = Frequency.hourly),
    ← Classical.not_and_iff_not_or_not]
  dsimp only [blockEnd?]
  split
  · simp [*]
  · split
    · simp [*]
    · split <;> simp [*]

theorem blockEnd?_congr (hd : t.date = s.date) (hh : t.time.hour = s.time.hour)
    (hm : p.rule.frequency ≠ .hourly → t.time.minute = s.time.minute) :
    p.blockEnd? t = p.blockEnd? s := by
  unfold blockEnd?
  rw [hd, hh]
  by_cases hf : p.rule.frequency = .hourly
  · simp only [hf, ne_eq, not_true_eq_false, false_and, if_false]
  · rw [hm hf]

/-- No block reaches into the next day. -/
theorem blockEnd?_le {n : Nat} (h : p.blockEnd? s = some n) :
    n ≤ s.date.index * 86400 + 86400 := by
  have hclock := s.time.clock_lt
  unfold blockEnd? at h
  dsimp only at h
  split at h
  · cases h
    exact Nat.le_refl _
  · split at h
    · cases h
      omega
    · split at h
      · cases h
        omega
      · cases h

/-- All times up to the end of a block are blocked until then. -/
theorem blockEnd?_stable {n : Nat} (h : p.blockEnd? s = some n) (hst : s.seconds ≤ t.seconds)
    (htn : t.seconds < n) : p.blockEnd? t = some n := by
  have hs := s.seconds_cast
  have ht := t.seconds_cast
  have hsi := s.date.index_cast
  have hsday := s.time.lt_day
  have htday := t.time.lt_day
  have hsclock := s.time.seconds_eq_clock
  have htclock := t.time.seconds_eq_clock
  have hslt := s.time.clock_lt
  have htlt := t.time.clock_lt
  have hend := blockEnd?_le h
  have hdate : t.date = s.date := by
    apply Date.ext
    omega
  rw [hdate] at ht
  dsimp only [blockEnd?] at h ⊢
  split at h
  · next ha =>
    cases h
    rw [hdate, if_pos ha]
  · next ha =>
    split at h
    · next hh =>
      cases h
      rw [hdate, show t.time.hour = s.time.hour by omega, if_neg ha, if_pos hh]
    · next hh =>
      split at h
      · next hm =>
        cases h
        rw [hdate, show t.time.hour = s.time.hour by omega,
          show t.time.minute = s.time.minute by omega, if_neg ha, if_neg hh, if_pos hm]
      · cases h

theorem instantsAt_ascending (p : Plan) (s : Timestamp) (hm : p.minutes.Pairwise (· < ·))
    (hs : p.seconds.Pairwise (· < ·)) : (p.instantsAt s).Pairwise (· < ·) := by
  unfold instantsAt
  cases p.rule.frequency
  case hourly => exact map_of_ascending _ (TimeOfDay.ofHour_ascending hm hs)
  case minutely => exact map_of_ascending _ (TimeOfDay.ofMinute_ascending hs)
  case secondly =>
    dsimp only
    split
    · exact List.pairwise_singleton _ _
    · exact List.Pairwise.nil
  all_goals exact List.Pairwise.nil

theorem mem_map_of {d : Date} {times : List TimeOfDay} :
    t ∈ times.map (Timestamp.of d) ↔ t.nano = 0 ∧ t.date = d ∧ t.time ∈ times := by
  rw [List.mem_map]
  constructor
  · intro h
    obtain ⟨u, hu, rfl⟩ := h
    exact ⟨rfl, rfl, hu⟩
  · intro h
    obtain ⟨hn, rfl, hu⟩ := h
    exact ⟨_, hu, Timestamp.of_date_time hn⟩

theorem eq_of_clock (hs : s.nano = 0) (ht : t.nano = 0) (hd : t.date = s.date)
    (hh : t.time.hour = s.time.hour) (hm : t.time.minute = s.time.minute)
    (hsec : t.time.second = s.time.second) : t = s := by
  apply Timestamp.eq_of_seconds ht hs
  have h1 := t.time.seconds_eq_clock
  have h2 := s.time.seconds_eq_clock
  rw [Timestamp.seconds, Timestamp.seconds, hd]
  omega

theorem nano_instantsAt (hs : s.nano = 0) (ht : t ∈ p.instantsAt s) : t.nano = 0 := by
  unfold instantsAt at ht
  cases hf : p.rule.frequency <;> simp only [hf] at ht
  case hourly => exact (mem_map_of.mp ht).1
  case minutely => exact (mem_map_of.mp ht).1
  case secondly =>
    split at ht
    · rw [List.mem_singleton.mp ht]
      exact hs
    · cases ht
  all_goals cases ht

theorem mem_instantsAt (hal : p.rule.frequency.Aligned s)
    (hsub : p.rule.frequency.isSubDaily = true) (ht : t.nano = 0) :
    t ∈ p.instantsAt s ↔ p.rule.frequency.Covers s t ∧
      (p.rule.frequency = .hourly → t.time.minute ∈ p.minutes) ∧
      (p.rule.frequency ≠ .secondly → t.time.second ∈ p.seconds) ∧
      (p.rule.frequency = .secondly → permits p.rule.bySecond t.time.second = true) := by
  rw [covers_iff_clock hal hsub ht]
  unfold instantsAt
  cases hf : p.rule.frequency <;>
    simp only [hf, Frequency.isSubDaily, Bool.false_eq_true] at hsub ⊢
  case hourly =>
    rw [mem_map_of, TimeOfDay.mem_ofHour]
    simp only [ht, reduceCtorEq, ne_eq, not_true_eq_false, not_false_eq_true, false_implies,
      true_implies, true_and, and_true, and_assoc]
  case minutely =>
    rw [mem_map_of, TimeOfDay.mem_ofMinute]
    simp only [ht, reduceCtorEq, ne_eq, not_false_eq_true, false_implies, true_implies, true_and,
      and_true, and_assoc]
  case secondly =>
    simp only [reduceCtorEq, ne_eq, not_true_eq_false, not_false_eq_true, false_implies,
      true_implies, true_and, and_assoc]
    constructor
    · intro hmem
      split at hmem
      · next hp =>
        rw [List.mem_singleton] at hmem
        subst hmem
        exact ⟨rfl, rfl, rfl, rfl, hp⟩
      · cases hmem
    · intro h
      obtain ⟨hd, hh, hm, hsec, hp⟩ := h
      have he := eq_of_clock hal.1 ht hd hh hm hsec
      rw [← he, if_pos hp]
      exact List.mem_singleton_self t

end Recurrence.Plan
