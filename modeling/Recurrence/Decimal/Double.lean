/-!
# Doubles

A finite double is a significand of at most 53 bits times a power of two. A fraction is rounded to
the nearest double, and to the one with the even significand if two are equally near.
-/

namespace Recurrence.Decimal

set_option autoImplicit false

/-- Only with the lowest power, a significand has less than 53 bits. -/
inductive Double
  | notANumber
  | infinite (negative : Bool)
  | finite (negative : Bool) (significand : Nat) (power : Int)
deriving DecidableEq, Repr

namespace Double

def lowestPower : Int := -1074

def highestPower : Int := 971

/-- The least significand of 53 bits. -/
def leastSignificand : Nat := 4503599627370496

def zero : Double := finite false 0 lowestPower

def infinity : Double := infinite false

def negate : Double → Double
  | notANumber => notANumber
  | infinite negative => infinite !negative
  | finite negative significand power => finite (!negative) significand power

def isFinite : Double → Bool
  | finite _ _ _ => true
  | infinite _ | notANumber => false

/-! ### Rounding -/

/-- The whole number nearest to a fraction, the even one of two. -/
def roundEven (n d : Nat) : Nat :=
  let rest := 2 * (n % d)
  if d < rest ∨ rest = d ∧ n / d % 2 = 1 then n / d + 1 else n / d

/-- The power of two that leaves 53 bits of a fraction before the point, or the lowest one. -/
def powerOf (n d : Nat) : Int :=
  let power : Int := (n.log2 : Int) - d.log2 - 52
  let short := n * Nat.pow 2 (-power).toNat / (d * Nat.pow 2 power.toNat) < leastSignificand
  max (if short then power - 1 else power) lowestPower

/-- A double with a significand that may have been rounded up to 54 bits. -/
def ofRounded (significand : Nat) (power : Int) : Double :=
  if significand = 2 * leastSignificand then
    if power < highestPower then finite false leastSignificand (power + 1) else infinity
  else if power ≤ highestPower then finite false significand power
  else infinity

/-- The double nearest to a fraction. -/
def ofFraction (n d : Nat) : Double :=
  if n = 0 then zero
  else
    let power := powerOf n d
    ofRounded (roundEven (n * Nat.pow 2 (-power).toNat) (d * Nat.pow 2 power.toNat)) power

/-- The natural number of 64 bits that is nearest to a double, the upper one of two. -/
def natural : Double → Nat
  | notANumber => 0
  | infinite negative => if negative then 0 else 18446744073709551615
  | finite negative significand power =>
    if negative then 0
    else
      let half := Nat.pow 2 (-power).toNat
      min ((2 * (significand * Nat.pow 2 power.toNat) + half) / (2 * half)) 18446744073709551615

end Double

end Recurrence.Decimal
