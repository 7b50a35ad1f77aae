import Recurrence.Calendar.Timestamp
import Recurrence.OrderedSet

/-!
# Recurrence rules

A rule repeats with a frequency; its BY parts are finite sets, so the order and the repetition of
their values do not matter. A value of `Rule` need not make sense: see `Rule.Valid`.
-/

namespace Recurrence

set_option autoImplicit false

open Calendar

inductive Frequency
  | secondly | minutely | hourly | daily | weekly | monthly | yearly
deriving DecidableEq, Repr, Inhabited

namespace Frequency

def all : List Frequency := [secondly, minutely, hourly, daily, weekly, monthly, yearly]

def keyword : Frequency → List Char
  | secondly => ['S', 'E', 'C', 'O', 'N', 'D', 'L', 'Y']
  | minutely => ['M', 'I', 'N', 'U', 'T', 'E', 'L', 'Y']
  | hourly => ['H', 'O', 'U', 'R', 'L', 'Y']
  | daily => ['D', 'A', 'I', 'L', 'Y']
  | weekly => ['W', 'E', 'E', 'K', 'L', 'Y']
  | monthly => ['M', 'O', 'N', 'T', 'H', 'L', 'Y']
  | yearly => ['Y', 'E', 'A', 'R', 'L', 'Y']

def ofKeyword? (text : List Char) : Option Frequency :=
  all.find? fun f => f.keyword = text.map Char.toUpper

/-- Whether a period of the frequency is shorter than a day. -/
def isSubDaily : Frequency → Bool
  | secondly | minutely | hourly => true
  | daily | weekly | monthly | yearly => false

theorem mem_all (f : Frequency) : f ∈ all := by cases f <;> decide

@[simp] theorem ofKeyword?_keyword (f : Frequency) : ofKeyword? f.keyword = some f := by
  cases f <;> decide

end Frequency

/-- A weekday, or its n-th occurrence in a month or a year, counted from the end if negative. -/
structure NthWeekday where
  ordinal : Option Int
  weekday : Weekday
deriving DecidableEq

namespace NthWeekday

def every (weekday : Weekday) : NthWeekday := ⟨none, weekday⟩

/-- A year has at most 53 of each weekday. -/
def nth? (ordinal : Int) (weekday : Weekday) : Option NthWeekday :=
  if ordinal ≠ 0 ∧ -53 ≤ ordinal ∧ ordinal ≤ 53 then some ⟨some ordinal, weekday⟩ else none

/-- Weekdays without an ordinal come first. -/
def Before (a b : NthWeekday) : Prop :=
  match a.ordinal, b.ordinal with
  | none, none => a.weekday.fromMonday < b.weekday.fromMonday
  | none, some _ => True
  | some _, none => False
  | some m, some n => m < n ∨ m = n ∧ a.weekday.fromMonday < b.weekday.fromMonday

instance : LT NthWeekday := ⟨Before⟩

instance : DecidableLT NthWeekday := fun a b => by
  change Decidable (Before a b)
  unfold Before
  split <;> infer_instance

instance : Trans (LT.lt (α := NthWeekday)) (LT.lt (α := NthWeekday)) (LT.lt (α := NthWeekday)) where
  trans {a b c} h k := by
    change Before a b at h
    change Before b c at k
    change Before a c
    obtain ⟨_ | l, a⟩ := a <;> obtain ⟨_ | m, b⟩ := b <;> obtain ⟨_ | n, c⟩ := c <;>
      simp only [Before] at h k ⊢ <;> omega

instance : Std.Trichotomous (LT.lt (α := NthWeekday)) where
  trichotomous a b h k := by
    change ¬ Before a b at h
    change ¬ Before b a at k
    obtain ⟨_ | m, a⟩ := a <;> obtain ⟨_ | n, b⟩ := b <;>
      simp only [Before, not_true_eq_false] at h k
    · rw [Weekday.fromMonday_inj (a := a) (b := b) (by omega)]
    · obtain rfl : m = n := by omega
      rw [Weekday.fromMonday_inj (a := a) (b := b) (by omega)]

end NthWeekday

structure Rule where
  frequency : Frequency
  /-- The rule applies to every `interval`-th period. -/
  interval : Nat := 1
  /-- The number of occurrences, counted from the anchor. -/
  count : Option Nat := none
  /-- The last time at which an occurrence may lie. -/
  last : Option Timestamp := none
  weekStart : Weekday := .monday
  byDay : OrderedSet NthWeekday := {}
  byMonthDay : OrderedSet Int := {}
  byMonth : OrderedSet Nat := {}
  byYearDay : OrderedSet Int := {}
  byHour : OrderedSet Nat := {}
  byMinute : OrderedSet Nat := {}
  bySecond : OrderedSet Nat := {}
  /-- Positions within a period, counted from the end if negative. -/
  byPosition : OrderedSet Int := {}
  /-- The start of the rule; without one, it starts with the window that is asked for. -/
  anchor : Option Timestamp := none
deriving DecidableEq

namespace Rule

def hasDateFilter (r : Rule) : Bool :=
  !r.byMonth.isEmpty || !r.byYearDay.isEmpty || !r.byMonthDay.isEmpty || !r.byDay.isEmpty

/-- Whether the rule has a BY part beside the positions. -/
def hasByPart (r : Rule) : Bool :=
  r.hasDateFilter || !r.byHour.isEmpty || !r.byMinute.isEmpty || !r.bySecond.isEmpty

end Rule

/-- The parts of a rule, in the order in which they are read. -/
inductive Field
  | freq | interval | count | last | wkst | byDay | byMonthDay | byMonth | byYearDay
  | byHour | byMinute | bySecond | bySetPos
deriving DecidableEq, Repr

namespace Field

def all : List Field :=
  [freq, interval, count, last, wkst, byDay, byMonthDay, byMonth, byYearDay, byHour, byMinute,
    bySecond, bySetPos]

def name : Field → List Char
  | freq => ['F', 'R', 'E', 'Q']
  | interval => ['I', 'N', 'T', 'E', 'R', 'V', 'A', 'L']
  | count => ['C', 'O', 'U', 'N', 'T']
  | last => ['U', 'N', 'T', 'I', 'L']
  | wkst => ['W', 'K', 'S', 'T']
  | byDay => ['B', 'Y', 'D', 'A', 'Y']
  | byMonthDay => ['B', 'Y', 'M', 'O', 'N', 'T', 'H', 'D', 'A', 'Y']
  | byMonth => ['B', 'Y', 'M', 'O', 'N', 'T', 'H']
  | byYearDay => ['B', 'Y', 'Y', 'E', 'A', 'R', 'D', 'A', 'Y']
  | byHour => ['B', 'Y', 'H', 'O', 'U', 'R']
  | byMinute => ['B', 'Y', 'M', 'I', 'N', 'U', 'T', 'E']
  | bySecond => ['B', 'Y', 'S', 'E', 'C', 'O', 'N', 'D']
  | bySetPos => ['B', 'Y', 'S', 'E', 'T', 'P', 'O', 'S']

def ofName? (text : List Char) : Option Field :=
  all.find? fun f => f.name = text.map Char.toUpper

theorem mem_all (f : Field) : f ∈ all := by cases f <;> decide

@[simp] theorem ofName?_name (f : Field) : ofName? f.name = some f := by cases f <;> decide

end Field

end Recurrence
