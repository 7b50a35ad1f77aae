import Recurrence.Decimal.Double
import Recurrence.Text.Numeral

/-!
# The fewest digits of a double

A positive double stands for the numbers that round to it. Its shortest decimal has the fewest
significant digits among those in that interval, and of these it is the nearest to the double, the
upper one if two are equally near.
-/

namespace Recurrence.Decimal

set_option autoImplicit false

structure Scientific where
  coefficient : Nat
  exponent : Int
deriving DecidableEq, Repr

/-- A positive double as a fraction, with the ends of its interval over the same denominator. -/
structure Interval where
  low : Nat
  value : Nat
  high : Nat
  denominator : Nat
  /-- Whether the ends belong to the interval. -/
  closed : Bool

namespace Interval

/-- The interval of a double with a significand, a power of two, and perhaps a lower neighbour that
is only half as far away. -/
def ofBinary (significand : Nat) (power : Int) (narrow : Bool) : Interval :=
  let up := Nat.pow 2 (power - 2).toNat
  let below := if narrow then 1 else 2
  ⟨(4 * significand - below) * up, 4 * significand * up, (4 * significand + 2) * up,
    Nat.pow 2 (2 - power).toNat, significand % 2 = 0⟩

def holds (i : Interval) (d : Scientific) : Bool :=
  let n := d.coefficient * Nat.pow 10 d.exponent.toNat * i.denominator
  let scale := Nat.pow 10 (-d.exponent).toNat
  if i.closed then i.low * scale ≤ n && n ≤ i.high * scale
  else i.low * scale < n && n < i.high * scale

/-- The largest multiple of a power of ten that is not above the value. -/
def floor (i : Interval) (exponent : Int) : Scientific :=
  ⟨i.value * Nat.pow 10 (-exponent).toNat / (i.denominator * Nat.pow 10 exponent.toNat), exponent⟩

/-- The power of ten of the first digit. -/
def order (i : Interval) : Int :=
  let guess : Int :=
    ((Text.digits i.value).length : Int) - ((Text.digits i.denominator).length : Int)
  if (i.floor guess).coefficient = 0 then guess - 1 else guess

/-- The decimal of that many digits nearest to the value, if it lies in the interval. -/
def nearest? (i : Interval) (count : Nat) : Option Scientific :=
  let exponent := i.order + 1 - count
  let below := i.floor exponent
  let above : Scientific := ⟨below.coefficient + 1, exponent⟩
  let scale := Nat.pow 10 (-exponent).toNat
  let unit := i.denominator * Nat.pow 10 exponent.toNat
  let rest := i.value * scale - below.coefficient * unit
  let (first, second) :=
    if 2 * rest < unit then (below, above) else (above, below)
  if i.holds first then some first else if i.holds second then some second else none

/-- The shortest decimal; one digit more appears only if a lone 9 is rounded up. -/
def shortest (i : Interval) : Scientific :=
  let d := ((List.range' 1 17).findSome? i.nearest?).getD (i.floor (i.order - 16))
  if d.coefficient = 10 then ⟨1, d.exponent + 1⟩ else d

end Interval

/-- The digits of a decimal without an exponent. -/
def Scientific.positional (d : Scientific) : List Char :=
  let ds := Text.digits d.coefficient
  if 0 ≤ d.exponent then ds ++ List.replicate d.exponent.toNat '0'
  else
    let places := (-d.exponent).toNat
    if places < ds.length then ds.take (ds.length - places) ++ '.' :: ds.drop (ds.length - places)
    else '0' :: '.' :: List.replicate (places - ds.length) '0' ++ ds

/-- The shortest decimal of a double, without an exponent. The lower neighbour is half as far away
where the power of two goes down. -/
def text : Double → List Char
  | .notANumber => ['N', 'a', 'N']
  | .infinite negative => signed negative ['i', 'n', 'f']
  | .finite negative significand power =>
    let narrow := significand = Double.leastSignificand && Double.lowestPower < power
    signed negative <|
      if significand = 0 then ['0']
      else (Interval.ofBinary significand power narrow).shortest.positional
where
  signed (negative : Bool) (magnitude : List Char) : List Char :=
    if negative then '-' :: magnitude else magnitude

end Recurrence.Decimal
