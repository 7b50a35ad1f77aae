import Recurrence.Json.Number
import Recurrence.Json.Text

/-!
# Reading JSON

A text is one value, with white space around its tokens. Values nest at most 127 deep.
-/

namespace Recurrence

set_option autoImplicit false

inductive Json
  | null
  | bool (value : Bool)
  | number (value : Json.Number)
  | text (value : List Char)
  | array (items : List Json)
  | object (members : List (List Char × Json))

namespace Json

def isSpace (c : Char) : Bool := c = ' ' || c = '\t' || c = '\n' || c = '\r'

def skipSpace (cs : List Char) : List Char := cs.dropWhile isSpace

/-- A value that holds no other. -/
def readScalar : List Char → Option (Json × List Char)
  | 'n' :: 'u' :: 'l' :: 'l' :: rest => some (null, rest)
  | 't' :: 'r' :: 'u' :: 'e' :: rest => some (bool true, rest)
  | 'f' :: 'a' :: 'l' :: 's' :: 'e' :: rest => some (bool false, rest)
  | '"' :: rest => (readText ('"' :: rest)).map fun (value, rest) => (text value, rest)
  | cs => (readNumber cs).map fun (value, rest) => (number value, rest)

/-- Items with commas between them up to the closing bracket; there is at least one. -/
def readItems {α : Type} (item : List Char → Option (α × List Char)) (close : Char) :
    Nat → List Char → Option (List α × List Char)
  | 0, _ => none
  | fuel + 1, cs => do
    let (first, rest) ← item (skipSpace cs)
    match skipSpace rest with
    | [] => none
    | c :: rest =>
      if c = close then return ([first], rest)
      if c ≠ ',' then none
      let (others, rest) ← readItems item close fuel rest
      return (first :: others, rest)

/-- What follows an opening bracket. -/
def readList {α : Type} (item : List Char → Option (α × List Char)) (close : Char)
    (cs : List Char) : Option (List α × List Char) :=
  match skipSpace cs with
  | [] => none
  | c :: rest => if c = close then some ([], rest) else readItems item close cs.length (c :: rest)

def readMember (value : List Char → Option (Json × List Char)) (cs : List Char) :
    Option ((List Char × Json) × List Char) := do
  let (name, rest) ← readText cs
  match skipSpace rest with
  | ':' :: rest =>
    let (value, rest) ← value (skipSpace rest)
    return ((name, value), rest)
  | _ => none

/-- A value with so many levels of nesting at most. -/
def readValue : Nat → List Char → Option (Json × List Char)
  | depth + 1, '[' :: rest =>
    (readList (readValue depth) ']' rest).map fun (items, rest) => (array items, rest)
  | depth + 1, '{' :: rest =>
    (readList (readMember (readValue depth)) '}' rest).map fun (members, rest) =>
      (object members, rest)
  | _, cs => readScalar cs

def maxDepth : Nat := 127

def parse? (cs : List Char) : Option Json := do
  let (value, rest) ← readValue maxDepth (skipSpace cs)
  if skipSpace rest ≠ [] then
    none
  return value

/-- The only member with a name, or `none` if there is no such member; repeated names fail. -/
def member? (members : List (List Char × Json)) (name : List Char) : Option (Option Json) :=
  match members.filter fun m => m.1 = name with
  | [] => some none
  | [(_, value)] => some (some value)
  | _ => none

def asText? : Json → Option (List Char)
  | text value => some value
  | _ => none

end Json

end Recurrence
