import Recurrence.Decimal.Double
import Recurrence.Text.Numeral

/-!
# Reading doubles

A double is written as digits, perhaps with a point and an exponent, or by the name of a special
value; a sign may stand in front.
-/

namespace Recurrence.Decimal

set_option autoImplicit false

/-- The double nearest to `coefficient` times ten to the `exponent`. -/
def nearest (coefficient : Nat) (exponent : Int) : Double :=
  let order := (Text.digits coefficient).length + exponent
  if coefficient = 0 || order < -400 then .zero
  else if 400 < order then .infinity
  else .ofFraction (coefficient * Nat.pow 10 exponent.toNat) (Nat.pow 10 (-exponent).toNat)

def parseExponent? : List Char → Option Int
  | [] => some 0
  | e :: rest =>
    if e.toLower ≠ 'e' then none
    else match rest with
      | '-' :: ds => (Text.natural? ds).map fun n => -(n : Int)
      | '+' :: ds => (Text.natural? ds).map Int.ofNat
      | ds => (Text.natural? ds).map Int.ofNat

/-- A number without a sign. -/
def parseMagnitude? (cs : List Char) : Option Double := do
  let whole := cs.takeWhile Char.isDigit
  let rest := cs.dropWhile Char.isDigit
  let (fraction, rest) := match rest with
    | '.' :: rest => (rest.takeWhile Char.isDigit, rest.dropWhile Char.isDigit)
    | _ => ([], rest)
  if whole = [] ∧ fraction = [] then
    none
  let exponent ← parseExponent? rest
  return nearest (Nat.ofDigitChars 10 (whole ++ fraction) 0) (exponent - fraction.length)

def parseUnsigned? (cs : List Char) : Option Double :=
  let name := String.ofList (cs.map Char.toLower)
  if name = "inf" ∨ name = "infinity" then some .infinity
  else if name = "nan" then some .notANumber
  else parseMagnitude? cs

def parse? : List Char → Option Double
  | '-' :: rest => (parseUnsigned? rest).map Double.negate
  | '+' :: rest => parseUnsigned? rest
  | cs => parseUnsigned? cs

end Recurrence.Decimal
