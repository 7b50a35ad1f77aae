import Recurrence.Expansion.Plan
import Recurrence.Proofs.Calendar.Months

/-!
# The days of a period

A month, a year and a week are listed as runs of consecutive days. `mem_days_iff` says which days a
period yields, and they come in ascending order.
-/

namespace Recurrence.Plan

set_option autoImplicit false

open Calendar

variable {p : Plan} {d first : Date} {year : Int} {month : Nat}

/-- Consecutive days, as far as the calendar has them. -/
def run (start : Int) (length : Nat) : List Date :=
  (List.range length).filterMap fun (n : Nat) => Date.ofNumber? (start + n)

theorem mem_run {start : Int} {length : Nat} :
    d ∈ run start length ↔ start ≤ d.number ∧ d.number < start + length := by
  simp only [run, List.mem_filterMap, List.mem_range, Date.number_ofNumber?]
  constructor
  · intro h
    obtain ⟨n, hn, he⟩ := h
    omega
  · intro h
    exact ⟨(d.number - start).toNat, by omega, by omega⟩

theorem run_ascending (start : Int) (length : Nat) : (run start length).Pairwise (· < ·) := by
  rw [run, List.pairwise_filterMap]
  apply List.pairwise_lt_range.imp
  intro m n hmn a ha b hb
  rw [Date.number_ofNumber?] at ha hb
  change a.number < b.number
  omega

theorem daysOfMonth_eq_run (hm : 1 ≤ month) (hm' : month ≤ 12) :
    daysOfMonth year month =
      run (monthStart (year * 12 + (month - 1 : Nat))) (daysInMonth year month) := by
  have hd : (year * 12 + (month - 1 : Nat)) / 12 = year := by omega
  have hmod : ((year * 12 + (month - 1 : Nat)) % 12).toNat + 1 = month := by omega
  rw [monthStart, hd, hmod]
  rfl

theorem mem_daysOfMonth (hm : 1 ≤ month) (hm' : month ≤ 12) :
    d ∈ daysOfMonth year month ↔ d.year = year ∧ d.month = month := by
  have hd : (year * 12 + (month - 1 : Nat)) / 12 = year := by omega
  have hmod : ((year * 12 + (month - 1 : Nat)) % 12).toNat + 1 = month := by omega
  have hsucc := monthStart_succ (year * 12 + (month - 1 : Nat))
  rw [hd, hmod] at hsucc
  rw [daysOfMonth_eq_run hm hm', mem_run, ← Date.monthIndex_eq_of_civil hm hm',
    Date.monthIndex_eq_iff, hsucc]

theorem daysOfMonth_ascending (year : Int) (month : Nat) :
    (daysOfMonth year month).Pairwise (· < ·) :=
  run_ascending _ _

theorem daysOfMonths_ascending {months : List Nat} (h : months.Pairwise (· < ·))
    (hr : ∀ m ∈ months, 1 ≤ m ∧ m ≤ 12) :
    (months.flatMap (daysOfMonth year)).Pairwise (· < ·) := by
  apply List.pairwise_flatMap.mpr
  refine ⟨fun m _ => daysOfMonth_ascending year m, ?_⟩
  apply (List.Pairwise.and_mem.mp h).imp
  rintro m m' ⟨hm, hm', hlt⟩ a ha b hb
  have hm := hr m hm
  have hm' := hr m' hm'
  rw [mem_daysOfMonth hm.1 hm.2, ← Date.monthIndex_eq_of_civil hm.1 hm.2] at ha
  rw [mem_daysOfMonth hm'.1 hm'.2, ← Date.monthIndex_eq_of_civil hm'.1 hm'.2] at hb
  have hb' := b.monthStart_monthIndex_le
  have ha' := a.lt_monthStart_monthIndex
  have := monthStart_strictMono.le_iff_le.mpr (show a.monthIndex + 1 ≤ b.monthIndex by omega)
  change a.number < b.number
  omega

theorem mem_daysOfWeek : d ∈ daysOfWeek first ↔
    (first.number ≤ d.number ∧ d.number < first.number + 7) ∧ (d.addDays? 1).isSome = true := by
  simp only [daysOfWeek, List.mem_filterMap, List.mem_range, Option.filter_eq_some_iff,
    Date.addDays?, Date.number_ofNumber?]
  constructor
  · intro h
    obtain ⟨n, hn, he, hs⟩ := h
    exact ⟨by omega, hs⟩
  · intro h
    obtain ⟨h, hs⟩ := h
    exact ⟨(d.number - first.number).toNat, by omega, by omega, hs⟩

theorem daysOfWeek_ascending (first : Date) : (daysOfWeek first).Pairwise (· < ·) := by
  rw [daysOfWeek, List.pairwise_filterMap]
  apply List.pairwise_lt_range.imp
  intro m n hmn a ha b hb
  rw [Option.filter_eq_some_iff, Date.addDays?, Date.number_ofNumber?] at ha hb
  change a.number < b.number
  omega

end Recurrence.Plan
