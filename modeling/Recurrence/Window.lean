import Recurrence.Calendar.Form
import Recurrence.Calendar.Parser
import Recurrence.Text.Blank
import Recurrence.Text.Quoted

/-!
# Windows

A window holds the time from its first bound up to, but without, its second.
-/

namespace Recurrence

set_option autoImplicit false

open Calendar Text

structure Window where
  after : Timestamp
  before : Timestamp
  after_lt_before : after < before

namespace Window

def of? (after before : Timestamp) : Option Window :=
  if h : after < before then some ⟨after, before, h⟩ else none

def Contains (w : Window) (t : Timestamp) : Prop := w.after ≤ t ∧ t < w.before

instance (w : Window) (t : Timestamp) : Decidable (w.Contains t) := by
  unfold Contains
  infer_instance

end Window

inductive Bound
  | after
  | before
deriving DecidableEq, Repr

def Bound.name : Bound → String
  | after => "after"
  | before => "before"

inductive WindowError
  | notTimestamp (which : Bound) (text : List Char) (error : TimestampError)
  | notBefore (after before : Timestamp)
deriving DecidableEq

def WindowError.message : WindowError → String
  | notTimestamp which text error =>
    "invalid `" ++ which.name ++ "` bound " ++ String.ofList (quoted text) ++ ": " ++ error.message
  | notBefore after before =>
    "window bound `after` (" ++ after.text ++ ") must be earlier than `before` (" ++
      before.text ++ ")"

/-- Reads one bound; white space around it does not count. -/
def Bound.parse (which : Bound) (cs : List Char) : Except WindowError Timestamp :=
  (Timestamp.parse (trim cs)).mapError (.notTimestamp which cs)

def Window.parse (after before : List Char) : Except WindowError Window := do
  let a ← Bound.after.parse after
  let b ← Bound.before.parse before
  match Window.of? a b with
  | some window => return window
  | none => throw (.notBefore a b)

end Recurrence
