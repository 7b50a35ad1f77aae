import Recurrence.Expansion.Walk
import Recurrence.RuleSet.Basic
import Std.Data.TreeSet.Basic

/-!
# Occurrences of a rule set

The dates of the set are added to the occurrences of its rule, the excepted times are taken away,
and the rest is cut to the wanted number.
-/

namespace Recurrence

set_option autoImplicit false

open Calendar

structure Limits where
  maxEmptyPeriods : Nat := 100000
  maxOccurrences : Option Nat := none
deriving DecidableEq

structure Expansion where
  occurrences : List Occurrence
  limited : Bool
deriving DecidableEq

/-- Keeps the first of the occurrences at each time. -/
def keepFirst (kept : Array Occurrence) : List Occurrence → Array Occurrence
  | [] => kept
  | o :: rest =>
    if kept.back?.map Occurrence.time = some o.time then keepFirst kept rest
    else keepFirst (kept.push o) rest

/-- The occurrences in order of time, one at each time; the first of the list is kept. -/
def inOrder (occurrences : List Occurrence) : List Occurrence :=
  (keepFirst #[] (occurrences.mergeSort fun a b => a.time ≤ b.time)).toList

def Expansion.cut (max : Option Nat) (occurrences : List Occurrence) : Expansion :=
  match max with
  | none => ⟨occurrences, false⟩
  | some max => ⟨occurrences.take max, max < occurrences.length⟩

namespace RuleSet

abbrev Times := Std.TreeSet Timestamp Timestamp.compare

/-- The excepted times in the window, and the excepted dates. -/
def exceptions (s : RuleSet) (window : Window) (maxEmptyPeriods : Nat) :
    Except ExpansionError Times := do
  let found ← s.exceptRules.mapM fun rule => rule.expand window maxEmptyPeriods none
  return .ofList (s.exceptDates.toList ++ found.flatten.map Occurrence.time) _

/-- The dates of the set in the window. They have no position. -/
def datesIn (s : RuleSet) (window : Window) : List Occurrence :=
  (s.dates.toList.filter window.Contains).map fun t => ⟨t, none⟩

/-- The occurrences of a rule set in a window. The walk of the rule may stop early, but it must find
one occurrence more than wanted, besides all that may be excepted. -/
def expand (s : RuleSet) (window : Window) (limits : Limits) : Except ExpansionError Expansion := do
  let exceptions ← s.exceptions window limits.maxEmptyPeriods
  let maxFound := limits.maxOccurrences.map fun max => max + exceptions.size + 1
  let found ← s.rule.expand window limits.maxEmptyPeriods maxFound
  let kept := (s.datesIn window ++ found).filter fun o => !exceptions.contains o.time
  return .cut limits.maxOccurrences (inOrder kept)

end RuleSet

end Recurrence
