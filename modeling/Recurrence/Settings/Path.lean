import Recurrence.Text.Numeral

/-!
# Paths to settings

A path leads through tables by names and through lists by indices. It is written with points before
names and brackets around indices; a negative index counts from the end.
-/

namespace Recurrence.Settings

set_option autoImplicit false

abbrev Name := List Char

inductive Step
  | name (name : Name)
  | index (index : Int)
deriving DecidableEq

abbrev Path := List Step

namespace Path

def isNameChar (c : Char) : Bool := c.isAlphanum || c = '_' || c = '-'

def isSpace (c : Char) : Bool := c = ' ' || c = '\t'

def readName (cs : List Char) : Option (Name × List Char) :=
  match cs.takeWhile isNameChar with
  | [] => none
  | name => some (name, cs.dropWhile isNameChar)

/-- An index with perhaps a minus sign, and what follows it and the spaces around it. -/
def readIndex (cs : List Char) : Option (Int × List Char) := do
  let (negative, cs) := match cs.dropWhile isSpace with
    | '-' :: rest => (true, rest)
    | cs => (false, cs)
  let n ← Text.natural? (cs.takeWhile Char.isDigit)
  let index : Int := if negative then -n else n
  if index < -9223372036854775808 ∨ 9223372036854775807 < index then
    none
  return (index, (cs.dropWhile Char.isDigit).dropWhile isSpace)

/-- The steps after the first name, at most so many. -/
def readSteps : Nat → List Char → Option Path
  | _, [] => some []
  | fuel + 1, '.' :: rest => do
    let (name, rest) ← readName rest
    return .name name :: (← readSteps fuel rest)
  | fuel + 1, '[' :: rest => do
    let (index, rest) ← readIndex rest
    let ']' :: rest := rest | none
    return .index index :: (← readSteps fuel rest)
  | _, _ => none

def read? (cs : List Char) : Option Path := do
  let (name, rest) ← readName cs
  return .name name :: (← readSteps rest.length rest)

/-- The path that a text writes; a text that writes none is a name. -/
def ofText (cs : List Char) : Path := (read? cs).getD [.name cs]

end Path

end Recurrence.Settings
