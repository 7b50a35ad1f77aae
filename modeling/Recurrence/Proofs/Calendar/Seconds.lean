import Recurrence.Proofs.Calendar.Months

/-!
# Timestamps as whole seconds

Period starts and candidates are whole seconds. Among those the order is the order of
`Timestamp.seconds`, and a second of the calendar belongs to exactly one of them.
-/

namespace Recurrence.Calendar

set_option autoImplicit false

namespace Date

theorem index_cast (d : Date) : (d.index : Int) = d.number - yearStart firstYear := by
  have := d.number_eq_index
  omega

end Date

namespace Timestamp

/-- The first whole second that is not before `t`. -/
def ceil (t : Timestamp) : Nat := t.seconds + if t.nano = 0 then 0 else 1

theorem ceil_eq_seconds {t : Timestamp} (h : t.nano = 0) : t.ceil = t.seconds := by
  simp [ceil, h]

theorem le_iff_ceil {s t : Timestamp} (hs : s.nano = 0) : t ≤ s ↔ t.ceil ≤ s.seconds := by
  have := t.nano_lt
  rw [le_iff_rank, rank, rank, hs, ceil]
  split <;> omega

theorem not_lt {s t : Timestamp} : ¬ s < t ↔ t ≤ s := by
  rw [le_iff_not_lt]

theorem not_le {s t : Timestamp} : ¬ s ≤ t ↔ t < s := by
  rw [le_iff_not_lt, Classical.not_not]

theorem lt_iff_ceil {s t : Timestamp} (hs : s.nano = 0) : s < t ↔ s.seconds < t.ceil := by
  rw [← not_le, le_iff_ceil hs, Nat.not_le]

theorem le_iff_seconds {s t : Timestamp} (hs : s.nano = 0) (ht : t.nano = 0) :
    s ≤ t ↔ s.seconds ≤ t.seconds := by
  rw [le_iff_ceil ht, ceil_eq_seconds hs]

theorem lt_iff_seconds {s t : Timestamp} (hs : s.nano = 0) (ht : t.nano = 0) :
    s < t ↔ s.seconds < t.seconds := by
  rw [lt_iff_ceil hs, ceil_eq_seconds ht]

theorem lt_of_lt_of_le {a b c : Timestamp} (h : a < b) (k : b ≤ c) : a < c :=
  Nat.lt_of_lt_of_le h k

theorem lt_of_le_of_lt {a b c : Timestamp} (h : a ≤ b) (k : b < c) : a < c :=
  Nat.lt_of_le_of_lt h k

theorem lt_trans {a b c : Timestamp} (h : a < b) (k : b < c) : a < c := Nat.lt_trans h k

theorem le_trans {a b c : Timestamp} (h : a ≤ b) (k : b ≤ c) : a ≤ c := Nat.le_trans h k

theorem le_of_lt {a b : Timestamp} (h : a < b) : a ≤ b := Nat.le_of_lt h

theorem lt_irrefl (a : Timestamp) : ¬ a < a := Nat.lt_irrefl a.rank

instance : Std.Irrefl (LT.lt (α := Timestamp)) := ⟨lt_irrefl⟩

instance : Std.Antisymm (LT.lt (α := Timestamp)) :=
  ⟨fun a _ h k => absurd (lt_trans h k) (lt_irrefl a)⟩

theorem eq_of_seconds {s t : Timestamp} (hs : s.nano = 0) (ht : t.nano = 0)
    (h : s.seconds = t.seconds) : s = t := by
  apply rank_inj
  rw [rank, rank, hs, ht, h]

theorem seconds_div (t : Timestamp) : t.seconds / 86400 = t.date.index := by
  have := t.time.lt_day
  unfold seconds
  omega

theorem seconds_mod (t : Timestamp) : t.seconds % 86400 = t.time.seconds := by
  have := t.time.lt_day
  unfold seconds
  omega

theorem seconds_cast (t : Timestamp) :
    (t.seconds : Int) = (t.date.number - yearStart firstYear) * 86400 + t.time.seconds := by
  have := t.date.index_cast
  unfold seconds
  omega

@[simp] theorem seconds_of (d : Date) (t : TimeOfDay) :
    (of d t).seconds = d.index * 86400 + t.seconds := rfl

@[simp] theorem seconds_startOfDay (d : Date) : (startOfDay d).seconds = d.index * 86400 := by
  simp only [startOfDay, seconds_of, TimeOfDay.midnight, Nat.add_zero]

theorem of_date_time {t : Timestamp} (h : t.nano = 0) : of t.date t.time = t :=
  eq_of_seconds rfl h rfl

theorem ofSeconds?_eq_some_iff {n : Nat} {t : Timestamp} :
    ofSeconds? n = some t ↔ t.nano = 0 ∧ t.seconds = n := by
  constructor
  · intro h
    have := seconds_of_ofSeconds? h
    exact ⟨this.2, this.1⟩
  · intro h
    obtain ⟨h, rfl⟩ := h
    rw [ofSeconds?, Option.map_eq_some_iff]
    refine ⟨t.date, Date.index_ofIndex?.mpr t.seconds_div.symm, ?_⟩
    exact eq_of_seconds rfl h (by rw [seconds_of]; dsimp only; rw [seconds_mod]; rfl)

theorem date_le_of_le {s t : Timestamp} (h : s ≤ t) : s.date.number ≤ t.date.number := by
  rw [← not_lt, lt_iff] at h
  omega

theorem seconds_le_of_le {s t : Timestamp} (h : s ≤ t) : s.seconds ≤ t.seconds := by
  have hs := s.nano_lt
  have ht := t.nano_lt
  rw [le_iff_rank, rank, rank] at h
  omega

end Timestamp

end Recurrence.Calendar
