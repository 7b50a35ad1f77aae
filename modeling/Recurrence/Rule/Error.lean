import Recurrence.Calendar.Parser
import Recurrence.Rule.Basic
import Recurrence.Text.Quoted

/-!
# Why a rule is refused

`Fault` says what is wrong with one value, `RuleError` where the fault lies; the wording is in
`Fault.message` and `RuleError.message`.
-/

namespace Recurrence

set_option autoImplicit false

open Calendar Text

inductive Fault
  | notKeyValue
  | empty
  | notPositive
  | notFrequency (text : List Char)
  | notTimestamp (error : TimestampError)
  | notListedTimestamp (text : List Char) (error : TimestampError)
  | notWeekday (text : List Char)
  | notWeekdayCode (text : List Char)
  | notOrdinal (text : List Char)
  | ordinalOutside (ordinal : Int)
  | notInteger (text : List Char)
  | outside (value low high : Int) (zeroExcluded : Bool)
  | ordinalNeedsMonth (frequency : Frequency)
  | notWith (frequency : Frequency)
  | needsByPart
deriving DecidableEq

namespace Fault

def message : Fault → String
  | notKeyValue => "expected KEY=VALUE"
  | empty => "value is empty"
  | notPositive => "must be a positive integer"
  | notFrequency text => String.ofList (quoted text) ++ " is not a frequency"
  | notTimestamp error => error.message
  | notListedTimestamp text error => String.ofList (quoted text) ++ ": " ++ error.message
  | notWeekday text => String.ofList (quoted text) ++ " is not a weekday"
  | notWeekdayCode text => String.ofList (quoted text) ++ " is not a weekday code"
  | notOrdinal text => String.ofList (quoted text) ++ " is not a weekday ordinal"
  | ordinalOutside ordinal => "ordinal " ++ toString ordinal ++ " must be within ±1..±53"
  | notInteger text => String.ofList (quoted text) ++ " is not an integer in the accepted range"
  | outside value low high zeroExcluded =>
    toString value ++ " is outside " ++ toString low ++ "..=" ++ toString high ++
      (if zeroExcluded then ", excluding 0" else "")
  | ordinalNeedsMonth frequency =>
    "weekday ordinals require FREQ=MONTHLY or FREQ=YEARLY, not " ++
      String.ofList frequency.keyword
  | notWith frequency => "not allowed with FREQ=" ++ String.ofList frequency.keyword
  | needsByPart => "requires another BY* rule part"

end Fault

inductive RuleError
  | unknownField (name : List Char)
  | duplicateField (name : List Char)
  | invalidValue (name : List Char) (fault : Fault)
  | missingFrequency
  | missingRule
  | countWithLast
deriving DecidableEq

namespace RuleError

/-- The part or the line that the error is about. -/
def field : RuleError → List Char
  | unknownField name | duplicateField name | invalidValue name _ => name
  | missingFrequency | missingRule => Field.freq.name
  | countWithLast => Field.count.name

def reason : RuleError → Option String
  | unknownField _ | duplicateField _ | missingFrequency => none
  | invalidValue _ fault => some fault.message
  | missingRule => some "no RRULE line"
  | countWithLast => some "COUNT and UNTIL are mutually exclusive"

def kindText : RuleError → String
  | unknownField _ => "unknown field"
  | duplicateField _ => "duplicate field"
  | invalidValue _ _ => "invalid value for field"
  | missingFrequency | missingRule => "missing required field"
  | countWithLast => "conflicting limit"

def message (e : RuleError) : String :=
  e.kindText ++ " `" ++ String.ofList e.field ++ "`" ++
    match e.reason with
    | some reason => ": " ++ reason
    | none => ""

end RuleError

end Recurrence
