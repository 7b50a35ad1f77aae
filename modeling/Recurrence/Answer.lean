import Recurrence.Json.Parser
import Recurrence.Query

/-!
# Answers to queries

An answer is written as a JSON object that holds either the occurrences or an error. It is read back
by its shape: occurrences are tried first, and other members do not count.
-/

namespace Recurrence

set_option autoImplicit false

inductive Answer
  | occurrences (listing : Listing)
  | error (message : String)
deriving DecidableEq, Repr

namespace Answer

def ofResult : Except QueryError Listing → Answer
  | .ok listing => occurrences listing
  | .error e => error e.message

def isError : Answer → Bool
  | occurrences _ => false
  | error _ => true

def occurrencesName : List Char := ['o', 'c', 'c', 'u', 'r', 'r', 'e', 'n', 'c', 'e', 's']

def limitedName : List Char := ['l', 'i', 'm', 'i', 't', 'e', 'd']

def errorName : List Char := ['e', 'r', 'r', 'o', 'r']

open Json (writeText)

/-- Written without spaces; a list that was not cut says nothing about it. -/
def chars : Answer → List Char
  | occurrences listing =>
    let items := [','].intercalate (listing.occurrences.map fun s => writeText s.toList)
    let limited := if listing.limited then
      ',' :: writeText limitedName ++ [':', 't', 'r', 'u', 'e'] else []
    '{' :: writeText occurrencesName ++ ':' :: '[' :: items ++ ']' :: limited ++ ['}']
  | error message => '{' :: writeText errorName ++ ':' :: writeText message.toList ++ ['}']

def wire (a : Answer) : String := String.ofList a.chars

def ofOccurrences? (members : List (List Char × Json)) : Option Answer := do
  let some (.array items) ← Json.member? members occurrencesName | none
  let texts ← items.mapM Json.asText?
  let limited ← match ← Json.member? members limitedName with
    | none => some false
    | some (.bool b) => some b
    | some _ => none
  return occurrences ⟨texts.map String.ofList, limited⟩

def ofError? (members : List (List Char × Json)) : Option Answer := do
  let some (.text message) ← Json.member? members errorName | none
  return error (String.ofList message)

def parse? (cs : List Char) : Option Answer := do
  let .object members ← Json.parse? cs | none
  (ofOccurrences? members).or (ofError? members)

end Answer

end Recurrence
