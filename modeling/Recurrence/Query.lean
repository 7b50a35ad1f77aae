import Recurrence.Expansion.RuleSet
import Recurrence.RuleSet.Parser

/-!
# Queries

A query asks for the occurrences of a written rule set between two written bounds. The rule is read
before the bounds, and both before anything is listed.
-/

namespace Recurrence

set_option autoImplicit false

open Calendar

inductive QueryError
  | rule (error : RuleError)
  | window (error : WindowError)
  | expansion (error : ExpansionError)
deriving DecidableEq

def QueryError.message : QueryError → String
  | rule error => error.message
  | window error => error.message
  | expansion error => error.message

def expandText (rule after before : String) (limits : Limits) : Except QueryError Expansion := do
  let set ← (RuleSet.parse rule.toList).mapError .rule
  let window ← (Window.parse after.toList before.toList).mapError .window
  (set.expand window limits).mapError .expansion

structure Listing where
  occurrences : List String
  limited : Bool := false
deriving DecidableEq, Repr

def Expansion.listing (e : Expansion) : Listing :=
  ⟨e.occurrences.map fun o => o.time.text, e.limited⟩

def occurrencesBetween (rule after before : String) (limits : Limits) : Except QueryError Listing :=
  (expandText rule after before limits).map Expansion.listing

end Recurrence
