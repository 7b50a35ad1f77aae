import Recurrence.Rule.Parser
import Recurrence.RuleSet.Basic

/-!
# Reading rule sets

A rule set is written in lines, each a name, a colon and a value; a line without a name is a rule.
The rule itself is read after all lines, and the start of the set is the anchor of all its rules.
-/

namespace Recurrence

set_option autoImplicit false

open Calendar Text

inductive LineKind
  | start | rule | dates | exceptDates | exceptRule
deriving DecidableEq, Repr

namespace LineKind

def all : List LineKind := [start, rule, dates, exceptDates, exceptRule]

def name : LineKind → List Char
  | start => ['D', 'T', 'S', 'T', 'A', 'R', 'T']
  | rule => ['R', 'R', 'U', 'L', 'E']
  | dates => ['R', 'D', 'A', 'T', 'E']
  | exceptDates => ['E', 'X', 'D', 'A', 'T', 'E']
  | exceptRule => ['E', 'X', 'R', 'U', 'L', 'E']

def ofName? (text : List Char) : Option LineKind :=
  all.find? fun kind => kind.name = text.map Char.toUpper

@[simp] theorem ofName?_name (kind : LineKind) : ofName? kind.name = some kind := by
  cases kind <;> decide

end LineKind

structure Line where
  kind : LineKind
  value : List Char

/-- A line without a colon, or with an equals sign before the first one, is a rule. -/
def Line.read (cs : List Char) : Except RuleError Line :=
  match cut? ':' cs with
  | none => .ok ⟨.rule, cs⟩
  | some (name, value) =>
    if '=' ∈ name then .ok ⟨.rule, cs⟩
    else match LineKind.ofName? (trim name) with
      | some kind => .ok ⟨kind, trim value⟩
      | none => .error (.unknownField ((trim name).map Char.toUpper))

namespace RuleSet

/-- What the lines read so far say. -/
structure Draft where
  anchor : Option Timestamp := none
  body : Option (List Char) := none
  dates : List Timestamp := []
  exceptDates : List Timestamp := []
  exceptRules : List Rule := []

def readDate (cs : List Char) : Except Fault Timestamp :=
  (Timestamp.parse cs).mapError (.notListedTimestamp cs)

def readDates (kind : LineKind) (value : List Char) : Except RuleError (List Timestamp) :=
  ((pieces ',' value).mapM readDate).mapError (.invalidValue kind.name)

namespace Draft

def add (draft : Draft) (line : Line) : Except RuleError Draft :=
  match line.kind with
  | .start =>
    if draft.anchor.isSome then .error (.duplicateField LineKind.start.name)
    else do
      let anchor ← (Rule.readTimestamp line.value).mapError (.invalidValue LineKind.start.name)
      return { draft with anchor := some anchor }
  | .rule =>
    if draft.body.isSome then .error (.duplicateField LineKind.rule.name)
    else .ok { draft with body := some line.value }
  | .dates => do
    let dates ← readDates .dates line.value
    return { draft with dates := draft.dates ++ dates }
  | .exceptDates => do
    let dates ← readDates .exceptDates line.value
    return { draft with exceptDates := draft.exceptDates ++ dates }
  | .exceptRule => do
    let rule ← Rule.parse line.value
    return { draft with exceptRules := draft.exceptRules ++ [rule] }

def addAll (draft : Draft) : List (List Char) → Except RuleError Draft
  | [] => .ok draft
  | cs :: rest => do
    let line ← Line.read cs
    let draft ← draft.add line
    draft.addAll rest

def finish (draft : Draft) : Except RuleError RuleSet :=
  match draft.body with
  | none => .error .missingRule
  | some body => do
    let rule ← Rule.parse body
    return {
      rule := { rule with anchor := draft.anchor }
      dates := .ofList draft.dates
      exceptDates := .ofList draft.exceptDates
      exceptRules := draft.exceptRules.map fun r => { r with anchor := draft.anchor } }

end Draft

/-- Reads a rule set; blank lines do not count. -/
def parse (cs : List Char) : Except RuleError RuleSet := do
  let draft ← Draft.addAll {} ((pieces '\n' cs).filter (· ≠ []))
  draft.finish

end RuleSet

end Recurrence
