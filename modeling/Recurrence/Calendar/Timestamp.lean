import Recurrence.Calendar.Date

/-!
# Points of time

A timestamp is a date with a time of day and a fraction of a second. A leap second is written as a
fraction of a second or more; from parts it is made only after second 59. Timestamps are ordered by
`Timestamp.rank`, which no two share.
-/

namespace Recurrence.Calendar

set_option autoImplicit false

structure TimeOfDay where
  /-- Seconds since midnight. -/
  seconds : Nat
  lt_day : seconds < 86400
deriving DecidableEq

namespace TimeOfDay

def midnight : TimeOfDay := ⟨0, by decide⟩

def ofClock? (hour minute second : Nat) : Option TimeOfDay :=
  if h : hour < 24 ∧ minute < 60 ∧ second < 60 then
    some ⟨hour * 3600 + minute * 60 + second, by omega⟩
  else none

def hour (t : TimeOfDay) : Nat := t.seconds / 3600

def minute (t : TimeOfDay) : Nat := t.seconds / 60 % 60

def second (t : TimeOfDay) : Nat := t.seconds % 60

theorem ext {s t : TimeOfDay} (h : s.seconds = t.seconds) : s = t := by
  cases s; cases t; simp_all

theorem clock_lt (t : TimeOfDay) : t.hour < 24 ∧ t.minute < 60 ∧ t.second < 60 := by
  have := t.lt_day
  unfold hour minute second
  omega

theorem ofClock?_clock (t : TimeOfDay) : ofClock? t.hour t.minute t.second = some t := by
  rw [ofClock?, dif_pos t.clock_lt]
  congr
  unfold hour minute second
  omega

end TimeOfDay

structure Timestamp where
  date : Date
  time : TimeOfDay
  nano : Nat
  nano_lt : nano < 2000000000
deriving DecidableEq

namespace Timestamp

/-- The whole seconds since the start of the calendar. -/
def seconds (t : Timestamp) : Nat := t.date.index * 86400 + t.time.seconds

/-- The place of a timestamp among all timestamps. -/
def rank (t : Timestamp) : Nat := t.seconds * 2000000000 + t.nano

instance : LT Timestamp := ⟨fun a b => a.rank < b.rank⟩

instance : LE Timestamp := ⟨fun a b => a.rank ≤ b.rank⟩

theorem lt_iff_rank {a b : Timestamp} : a < b ↔ a.rank < b.rank := Iff.rfl

theorem le_iff_rank {a b : Timestamp} : a ≤ b ↔ a.rank ≤ b.rank := Iff.rfl

theorem lt_iff {a b : Timestamp} : a < b ↔ a.date.number < b.date.number ∨
    a.date.number = b.date.number ∧ (a.time.seconds < b.time.seconds ∨
      a.time.seconds = b.time.seconds ∧ a.nano < b.nano) := by
  have := a.time.lt_day
  have := b.time.lt_day
  have := a.nano_lt
  have := b.nano_lt
  simp only [lt_iff_rank, rank, seconds, Date.number_eq_index]
  omega

theorem le_iff_not_lt {a b : Timestamp} : a ≤ b ↔ ¬ b < a := by
  simp only [lt_iff_rank, le_iff_rank]
  omega

instance : DecidableLT Timestamp := fun _ _ => decidable_of_iff _ lt_iff.symm

instance : DecidableLE Timestamp := fun _ _ => decidable_of_iff _ le_iff_not_lt.symm

theorem rank_inj {a b : Timestamp} (h : a.rank = b.rank) : a = b := by
  have := a.time.lt_day
  have := b.time.lt_day
  have := a.nano_lt
  have := b.nano_lt
  simp only [rank, seconds] at h
  have hd : a.date = b.date := Date.ext (by
    rw [a.date.number_eq_index, b.date.number_eq_index]
    omega)
  have ht : a.time = b.time := TimeOfDay.ext (by omega)
  have hn : a.nano = b.nano := by omega
  cases a; cases b; simp_all

instance : Trans (LT.lt (α := Timestamp)) (LT.lt (α := Timestamp)) (LT.lt (α := Timestamp)) :=
  ⟨fun h k => Nat.lt_trans h k⟩

instance : Std.Trichotomous (LT.lt (α := Timestamp)) :=
  ⟨fun _ _ h k => rank_inj (Nat.le_antisymm (Nat.not_lt.1 k) (Nat.not_lt.1 h))⟩

def compare (a b : Timestamp) : Ordering :=
  if a < b then .lt else if b < a then .gt else .eq

theorem compare_eq (a b : Timestamp) : compare a b = Ord.compare a.rank b.rank := by
  simp only [compare, lt_iff_rank, Nat.compare_eq_ite_lt]

instance : Std.TransCmp compare where
  eq_swap {a b} := by simp only [compare_eq]; exact Std.OrientedCmp.eq_swap
  isLE_trans {a b c} h k := by
    simp only [compare_eq] at *
    exact Std.TransCmp.isLE_trans h k

instance : Std.LawfulEqCmp compare where
  compare_self {a} := by simp [compare_eq]
  eq_of_compare {a b} h := by
    rw [compare_eq] at h
    exact rank_inj (Std.LawfulEqCmp.eq_of_compare h)

def of (date : Date) (time : TimeOfDay) : Timestamp :=
  ⟨date, time, 0, by decide⟩

def ofParts? (date : Date) (time : TimeOfDay) (nano : Nat) : Option Timestamp :=
  if h : nano < if time.second = 59 then 2000000000 else 1000000000 then
    some ⟨date, time, nano, by split at h <;> omega⟩
  else none

def ofSeconds? (s : Nat) : Option Timestamp :=
  (Date.ofIndex? (s / 86400)).map fun date => of date ⟨s % 86400, Nat.mod_lt _ (by decide)⟩

def startOfDay (date : Date) : Timestamp := of date .midnight

def isMidnight (t : Timestamp) : Bool := t.time.seconds = 0 && t.nano = 0

@[simp] theorem of_date (d : Date) (t : TimeOfDay) : (of d t).date = d := rfl

@[simp] theorem of_time (d : Date) (t : TimeOfDay) : (of d t).time = t := rfl

@[simp] theorem of_nano (d : Date) (t : TimeOfDay) : (of d t).nano = 0 := rfl

theorem seconds_of_ofSeconds? {s : Nat} {t : Timestamp} (h : ofSeconds? s = some t) :
    t.seconds = s ∧ t.nano = 0 := by
  simp only [ofSeconds?, Option.map_eq_some_iff, Date.index_ofIndex?] at h
  obtain ⟨d, hd, rfl⟩ := h
  simp only [seconds, of_date, of_time, of_nano, and_true, hd]
  omega

end Timestamp

end Recurrence.Calendar
