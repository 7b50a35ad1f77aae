import Recurrence.Answer
import Recurrence.Settings.Load

/-!
# The command line

A command names a window and a rule, and perhaps a settings file and a log level. Its answer is one
line of JSON; the status is 1 if the answer is an error or the settings cannot be loaded, and 2 if
the command itself is wrong.
-/

namespace Recurrence

set_option autoImplicit false

structure Command where
  after : String
  before : String
  rule : String
  settingsFile : Option String := none
  logLevel : Option String := none
deriving DecidableEq, Repr

namespace Command

inductive Switch
  | after | before | config | logLevel
deriving DecidableEq, Repr

namespace Switch

def all : List Switch := [after, before, config, logLevel]

def long : Switch → String
  | after => "--after"
  | before => "--before"
  | config => "--config"
  | logLevel => "--log-level"

def ofLong? (name : String) : Option Switch := all.find? fun s => s.long = name

end Switch

/-- An argument, before its place is known. -/
inductive Argument
  /-- A switch with the value that was written to it. -/
  | attached (switch : Switch) (value : String)
  | switch (switch : Switch)
  | plain (text : String)
  /-- Two dashes: all that follows is plain. -/
  | endOfSwitches
deriving DecidableEq, Repr

/-- A switch is written out or, for the settings file, as one letter. One dash alone is plain. -/
def Argument.read (text : String) : Option Argument :=
  match text.toList with
  | ['-'] => some (plain text)
  | ['-', '-'] => some endOfSwitches
  | '-' :: '-' :: _ =>
    match Text.cut? '=' text.toList with
    | none => (Switch.ofLong? text).map switch
    | some (name, value) =>
      (Switch.ofLong? (String.ofList name)).map (attached · (String.ofList value))
  | ['-', 'c'] => some (switch .config)
  | '-' :: 'c' :: '=' :: value | '-' :: 'c' :: value =>
    some (attached .config (String.ofList value))
  | '-' :: _ => none
  | _ => some (plain text)

structure Draft where
  values : List (Switch × String) := []
  rule : Option String := none

namespace Draft

def value? (d : Draft) (switch : Switch) : Option String :=
  (d.values.find? fun v => v.1 = switch).map Prod.snd

/-- A switch may come once, and a settings file must have a name. -/
def addValue (d : Draft) (switch : Switch) (value : String) : Option Draft :=
  if (d.value? switch).isSome || (switch = .config && value = "") then none
  else some { d with values := (switch, value) :: d.values }

def addRule (d : Draft) (rule : String) : Option Draft :=
  if d.rule.isSome then none else some { d with rule := some rule }

def addRules (d : Draft) (rules : List String) : Option Draft := rules.foldlM addRule d

def addAll (d : Draft) : List String → Option Draft
  | [] => some d
  | text :: rest => do
    match ← Argument.read text with
    | .endOfSwitches => d.addRules rest
    | .plain rule => (← d.addRule rule).addAll rest
    | .attached switch value => (← d.addValue switch value).addAll rest
    | .switch switch =>
      match rest with
      | [] => none
      | value :: rest =>
        let .plain value ← Argument.read value | none
        (← d.addValue switch value).addAll rest

/-- Both bounds and the rule must be given. -/
def finish (d : Draft) : Option Command := do
  return {
    after := ← d.value? .after
    before := ← d.value? .before
    rule := ← d.rule
    settingsFile := d.value? .config
    logLevel := d.value? .logLevel }

end Draft

def parse? (arguments : List String) : Option Command := do
  (← Draft.addAll {} arguments).finish

/-- The rule, which a dash takes from the input. -/
def ruleText (c : Command) (input : String) : String := if c.rule = "-" then input else c.rule

def answer (c : Command) (settings : Settings) (input : String) : Answer :=
  .ofResult (occurrencesBetween (c.ruleText input) c.after c.before settings.limits)

end Command

/-- What a program leaves behind. -/
structure Outcome where
  status : Nat
  output : String
deriving DecidableEq, Repr

/-- Runs a command line; the variables of the nearest file `.env` are set first. -/
def runBy (loader : Settings.Loader) (arguments : List String)
    (surroundings : Settings.Surroundings) (input : String) : Outcome :=
  match Command.parse? arguments with
  | none => ⟨2, ""⟩
  | some command =>
    match loader.load surroundings.withDotenv command.settingsFile with
    | .error _ => ⟨1, ""⟩
    | .ok settings =>
      let answer := command.answer settings input
      ⟨if answer.isError then 1 else 0, answer.wire ++ "\n"⟩

def run (arguments : List String) (surroundings : Settings.Surroundings) (input : String) :
    Outcome :=
  runBy .plain arguments surroundings input

end Recurrence
