/-!
# Positions from either end

A positive position counts from the start of a run, a negative one from its end.
-/

namespace Recurrence

set_option autoImplicit false

/-- The place, counted from 1, of a position in a run of that length. -/
def place? (position : Int) (length : Nat) : Option Nat :=
  let p := if 0 < position then position else length + 1 + position
  if position ≠ 0 ∧ 1 ≤ p ∧ p ≤ length then some p.toNat else none

/-- Whether the day at a place of a month or a year is the n-th of its weekday there. -/
def isNth (n : Int) (place length : Nat) : Bool :=
  if place = 0 ∨ length < place then false
  else if 0 < n then n = ((place - 1) / 7 + 1 : Nat)
  else if n < 0 then -n = ((length - place) / 7 + 1 : Nat)
  else false

theorem place?_eq_some_iff {position : Int} {length place : Nat} :
    place? position length = some place ↔ 1 ≤ place ∧ place ≤ length ∧
      (position = place ∨ position = (place : Int) - (length + 1)) := by
  unfold place?
  by_cases h : 0 < position
  · simp only [h, if_true, Option.ite_none_right_eq_some, Option.some.injEq]
    omega
  · simp only [h, if_false, Option.ite_none_right_eq_some, Option.some.injEq]
    omega

end Recurrence
