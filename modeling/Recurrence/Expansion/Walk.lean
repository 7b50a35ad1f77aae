import Recurrence.Expansion.Candidates
import Recurrence.Window

/-!
# Walking the periods of a rule

A walk goes from period to period and keeps the position in the sequence of the rule, the number of
periods that have been empty in a row, and the occurrences found in the window. `Request.step` is
one period; `Request.run` repeats it. They are cases of `Request.stepBy` and `Request.runBy`, which
leave open how positions are counted.
-/

namespace Recurrence

set_option autoImplicit false

open Calendar

/-- A time at which a rule set occurs, with its position in the sequence of the rule if known. -/
structure Occurrence where
  time : Timestamp
  position : Option Nat
deriving DecidableEq

inductive ExpansionError
  | tooManyEmptyPeriods (limit : Nat)
deriving DecidableEq

def ExpansionError.message : ExpansionError → String
  | tooManyEmptyPeriods limit =>
    "expansion gave up after " ++ toString limit ++ " consecutive periods without an occurrence"

/-- The largest value of a counter, which stays there. -/
def counterMax : Nat := 4294967295

/-- What is asked of one rule. -/
structure Request where
  plan : Plan
  anchor : Timestamp
  window : Window
  maxEmptyPeriods : Nat
  maxFound : Option Nat

/-- What has been seen of the sequence of the rule. -/
structure Progress where
  /-- The position of the latest occurrence, unless periods before the window were left out. -/
  position : Option Nat
  found : Array Occurrence

/-- What follows after a candidate: the end, or more, and whether an occurrence was seen. -/
inductive Flow
  | stop (progress : Progress)
  | more (progress : Progress) (seen : Bool)

/-- The state between two periods. -/
structure Walk where
  index : Nat
  emptyRun : Nat
  progress : Progress

inductive Step
  | halt (result : Except ExpansionError (Array Occurrence))
  | next (walk : Walk)

namespace Progress

/-- Moves on by `n` positions. -/
def advance (p : Progress) (n : Nat) : Progress :=
  { p with position := p.position.map fun k => min (k + min n counterMax) counterMax }

def add (p : Progress) (t : Timestamp) : Progress :=
  { p with found := p.found.push ⟨t, p.position⟩ }

end Progress

def visitEach {α : Type} (visit : Progress → α → Flow) :
    List α → Bool → Progress → Flow
  | [], seen, p => .more p seen
  | a :: rest, seen, p =>
    match visit p a with
    | .stop p => .stop p
    | .more p new => visitEach visit rest (seen || new) p

namespace Request

def rule (q : Request) : Rule := q.plan.rule

def endsBefore (q : Request) (t : Timestamp) : Bool := q.rule.last.any fun last => last < t

def countExceeded (q : Request) (p : Progress) : Bool :=
  match q.rule.count, p.position with
  | some count, some position => count < position
  | _, _ => false

def isFull (q : Request) (p : Progress) : Bool := q.maxFound.any fun max => max ≤ p.found.size

/-- Whether all times of a day lie between the anchor and the window, and before the end. -/
def isAhead (q : Request) (date : Date) : Bool :=
  q.anchor.date < date && date < q.window.after.date &&
    q.rule.last.all fun last => date < last.date

/-- Goes on after a period without an occurrence, unless there were too many in a row. -/
def skip (q : Request) (emptyRun : Nat) (p : Progress) (index : Nat) : Step :=
  let run := min (emptyRun + 1) counterMax
  if q.maxEmptyPeriods < run then .halt (.error (.tooManyEmptyPeriods q.maxEmptyPeriods))
  else .next ⟨index, run, p⟩

def finish (q : Request) (index emptyRun : Nat) : Flow → Step
  | .stop p => .halt (.ok p.found)
  | .more p true => .next ⟨index + 1, 0, p⟩
  | .more p false => q.skip emptyRun p (index + 1)

section Counting

variable (q : Request) (advance : Progress → Nat → Progress)

def visitBy (p : Progress) (t : Timestamp) : Flow :=
  if t < q.anchor then .more p false
  else if q.endsBefore t then .stop p
  else
    let p := advance p 1
    if q.countExceeded p || q.window.before ≤ t then .stop p
    else if t < q.window.after then .more p true
    else
      let p := p.add t
      if q.isFull p then .stop p else .more p true

/-- Visits all times of a day. A day ahead of the window only moves the position. -/
def visitDayBy (p : Progress) (date : Date) : Flow :=
  if date < q.anchor.date then .more p false
  else if q.isAhead date then
    let p := advance p q.plan.timesPerDay
    if q.countExceeded p then .stop p else .more p true
  else visitEach (fun p time => q.visitBy advance p (.of date time)) q.plan.times false p

def stepBy : Walk → Step
  | ⟨index, emptyRun, p⟩ =>
    match q.plan.cadence.start? index with
    | none => .halt (.ok p.found)
    | some start =>
      if q.window.before ≤ start || q.endsBefore start then .halt (.ok p.found)
      else match q.plan.candidates start with
        | .instants times =>
          q.finish index emptyRun (visitEach (q.visitBy advance) times false p)
        | .days dates =>
          q.finish index emptyRun (visitEach (q.visitDayBy advance) dates false p)
        | .skipTo time => q.skip emptyRun p (max (q.plan.cadence.firstFrom time) (index + 1))
        | .exhausted => .halt (.ok p.found)

def runBy : Nat → Walk → Except ExpansionError (Array Occurrence)
  | 0, w => .ok w.progress.found
  | fuel + 1, w =>
    match q.stepBy advance w with
    | .halt result => result
    | .next w => runBy fuel w

end Counting

def visit (q : Request) : Progress → Timestamp → Flow := q.visitBy Progress.advance

def visitDay (q : Request) : Progress → Date → Flow := q.visitDayBy Progress.advance

def step (q : Request) : Walk → Step := q.stepBy Progress.advance

def run (q : Request) : Nat → Walk → Except ExpansionError (Array Occurrence) :=
  q.runBy Progress.advance

/-- The first period to look at. Without a count, positions are not needed, and what has ended
before the window is left out. -/
def firstIndex (q : Request) : Nat :=
  if q.rule.count.isNone then q.plan.cadence.ended q.window.after else 0

def initial (q : Request) : Walk :=
  ⟨q.firstIndex, 0, ⟨if q.firstIndex = 0 then some 0 else none, #[]⟩⟩

/-- How many periods a walk can look at: those that start before the end of the window. A rule whose
interval is 0 stays in one period, until it reaches its count or too many have been empty. -/
def budget (q : Request) : Nat :=
  if q.rule.interval = 0 then q.rule.count.getD 0 + q.maxEmptyPeriods + 2
  else q.plan.cadence.startedBefore q.window.before - q.firstIndex

end Request

namespace Rule

/-- The occurrences of a rule in a window, at most `maxFound` of them, with any way of counting. -/
def expandBy (advance : Progress → Nat → Progress) (rule : Rule) (window : Window)
    (maxEmptyPeriods : Nat) (maxFound : Option Nat) : Except ExpansionError (List Occurrence) :=
  let anchor := rule.anchor.getD window.after
  match Plan.of? rule anchor with
  | none => .ok []
  | some plan =>
    let q : Request := ⟨plan, anchor, window, maxEmptyPeriods, maxFound⟩
    (q.runBy advance q.budget q.initial).map Array.toList

/-- The occurrences of a rule in a window, at most `maxFound` of them. -/
def expand : Rule → Window → Nat → Option Nat → Except ExpansionError (List Occurrence) :=
  expandBy Progress.advance

end Rule

end Recurrence
