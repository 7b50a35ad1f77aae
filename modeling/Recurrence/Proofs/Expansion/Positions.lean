import Mathlib.Data.List.Basic
import Recurrence.Proofs.Expansion.Candidates

/-!
# Times of day by number, and positions

The times of day are numbered through the lists of hours, minutes and seconds. Positions pick some
of the candidates and keep them ascending.
-/

namespace Recurrence.Plan

set_option autoImplicit false

open Calendar

variable {t : Timestamp} {p : Plan}

/-- Numbering through a list of equally long runs. -/
theorem flatMap_range_filterMap {α β : Type} (l : List α) (n : Nat) (f : α → Nat → Option β)
    (hn : 0 < n) : l.flatMap (fun a => (List.range n).filterMap (f a)) =
      (List.range (l.length * n)).filterMap fun i => l[i / n]?.bind fun a => f a (i % n) := by
  induction l with
  | nil => simp
  | cons a l ih =>
    rw [List.flatMap_cons, ih, List.length_cons, Nat.succ_mul, Nat.add_comm, List.range_add,
      List.filterMap_append, List.filterMap_map]
    congr 1
    · apply List.filterMap_congr
      intro i hi
      have hlt := List.mem_range.mp hi
      rw [Nat.div_eq_of_lt hlt, Nat.mod_eq_of_lt hlt]
      rfl
    · apply List.filterMap_congr
      intro i _
      rw [Function.comp_apply, Nat.add_div_left i hn, Nat.add_mod_left]
      rfl

theorem filterMap_range_getElem? {α β : Type} (l : List α) (f : α → Option β) :
    (List.range l.length).filterMap (fun i => l[i]?.bind f) = l.filterMap f := by
  induction l with
  | nil => rfl
  | cons a l ih =>
    rw [List.length_cons, List.range_succ_eq_map, List.filterMap_cons, List.filterMap_cons,
      List.filterMap_map, ← ih]
    rfl

theorem times_eq_timeAt? (hm : 0 < p.minutes.length) (hs : 0 < p.seconds.length) :
    p.times = (List.range p.timesPerDay).filterMap p.timeAt? := by
  have hinner : ∀ h, (p.minutes.flatMap fun m => p.seconds.filterMap (TimeOfDay.ofClock? h m)) =
      (List.range (p.minutes.length * p.seconds.length)).filterMap fun i =>
        p.minutes[i / p.seconds.length]?.bind fun m =>
          p.seconds[i % p.seconds.length]?.bind fun s => TimeOfDay.ofClock? h m s := by
    intro h
    simp only [← filterMap_range_getElem? p.seconds]
    rw [flatMap_range_filterMap _ _ _ hs]
  unfold times timesPerDay
  simp only [hinner]
  rw [flatMap_range_filterMap _ _ _ (Nat.mul_pos hm hs), Nat.mul_assoc]
  rfl

theorem mem_times_of_timeAt? {i : Nat} {u : TimeOfDay} (h : p.timeAt? i = some u) :
    u ∈ p.times := by
  simp only [timeAt?, Option.bind_eq_bind, Option.bind_eq_some_iff,
    TimeOfDay.ofClock?_eq_some_iff] at h
  obtain ⟨hour, hh, minute, hm, second, hs, rfl, rfl, rfl⟩ := h
  exact mem_times.mpr
    ⟨List.mem_of_getElem? hh, List.mem_of_getElem? hm, List.mem_of_getElem? hs⟩

theorem mem_of_mem_pick {times : List Timestamp} (h : t ∈ p.pick times) : t ∈ times := by
  unfold pick at h
  split at h
  · exact h
  · simp only [OrderedSet.mem_toList, OrderedSet.mem_ofList, List.mem_filterMap,
      Option.bind_eq_bind, Option.bind_eq_some_iff] at h
    obtain ⟨position, -, place, -, ht⟩ := h
    exact List.mem_of_getElem? ht

theorem pick_ascending {times : List Timestamp} (h : times.Pairwise (· < ·)) :
    (p.pick times).Pairwise (· < ·) := by
  unfold pick
  split
  · exact h
  · exact OrderedSet.ascending _

theorem mem_of_mem_pickFromDays {dates : List Date} (h : t ∈ p.pickFromDays dates) :
    t.nano = 0 ∧ t.date ∈ dates ∧ t.time ∈ p.times := by
  simp only [pickFromDays, OrderedSet.mem_toList, OrderedSet.mem_ofList, List.mem_filterMap,
    Option.bind_eq_bind, Option.bind_eq_some_iff, Option.pure_def, Option.some.injEq] at h
  obtain ⟨position, -, place, -, date, hd, time, hu, rfl⟩ := h
  exact ⟨rfl, List.mem_of_getElem? hd, mem_times_of_timeAt? hu⟩

end Recurrence.Plan
