import Recurrence.Text.Numeral

/-!
# Numbers of JSON

A number has an integer part without leading zeros, perhaps a fraction and perhaps an exponent. Its
leading digits are kept, as many as fit in 64 bits. A number is refused if the double of those
digits, times the double of its power of ten, is infinite.
-/

namespace Recurrence.Json

set_option autoImplicit false

structure Number where
  negative : Bool
  coefficient : Nat
  exponent : Int
deriving DecidableEq, Repr

/-- Half a unit in the last place above the largest double. -/
def overflowPoint : Nat := Nat.pow 2 1024 - Nat.pow 2 970

/-- The nearest number with 53 significant bits; a half goes to the even neighbour. -/
def toDouble (n : Nat) : Nat :=
  let unit := Nat.pow 2 (n.log2 - 52)
  let below := n / unit
  let rest := n % unit
  if 2 * rest < unit || (2 * rest = unit && below % 2 = 0) then below * unit
  else (below + 1) * unit

def Number.isFinite (n : Number) : Bool :=
  n.coefficient = 0 || n.exponent < 0 || (n.exponent ≤ 308 &&
    toDouble n.coefficient * toDouble (Nat.pow 10 n.exponent.toNat) < overflowPoint)

/-- Puts digits after `n` while the number fits in 64 bits, and counts the digits left over. -/
def appendDigits (n : Nat) : List Char → Nat × Nat
  | [] => (n, 0)
  | c :: cs =>
    let next := n * 10 + (c.toNat - 48)
    if next ≤ 18446744073709551615 then appendDigits next cs else (n, cs.length + 1)

/-- The number of an integer part, a fraction and an exponent. A digit left over from the integer
part counts as a zero, and one from the fraction not at all. -/
def Number.ofParts (negative : Bool) (whole fraction : List Char) (exponent : Int) : Number :=
  let (n, dropped) := appendDigits 0 whole
  let (n, ignored) := appendDigits n fraction
  ⟨negative, n, exponent + dropped - (fraction.length - ignored : Nat)⟩

def readDigits (cs : List Char) : Option (List Char × List Char) :=
  match cs.takeWhile Char.isDigit with
  | [] => none
  | digits => some (digits, cs.dropWhile Char.isDigit)

def readInteger (cs : List Char) : Option (List Char × List Char) := do
  let (digits, rest) ← readDigits cs
  if digits.length ≠ 1 ∧ digits.head? = some '0' then
    none
  return (digits, rest)

def readFraction : List Char → Option (List Char × List Char)
  | '.' :: rest => readDigits rest
  | cs => some ([], cs)

def readExponent (cs : List Char) : Option (Int × List Char) :=
  let value (rest : List Char) : Option (Int × List Char) :=
    (readDigits rest).map fun (ds, rest) => (Nat.ofDigitChars 10 ds 0, rest)
  let signed (rest : List Char) : Option (Int × List Char) := match rest with
    | '-' :: rest => (value rest).map fun (n, rest) => (-n, rest)
    | '+' :: rest => value rest
    | _ => value rest
  match cs with
  | 'e' :: rest | 'E' :: rest => signed rest
  | _ => some (0, cs)

def readNumber (cs : List Char) : Option (Number × List Char) := do
  let (negative, rest) := match cs with
    | '-' :: rest => (true, rest)
    | _ => (false, cs)
  let (whole, rest) ← readInteger rest
  let (fraction, rest) ← readFraction rest
  let (exponent, rest) ← readExponent rest
  let number := Number.ofParts negative whole fraction exponent
  if !number.isFinite then
    none
  return (number, rest)

end Recurrence.Json
