/-!
# Decimal numerals

A natural number is read from one or more decimal digits, leading zeros allowed; a range and an
optional sign are put around that.
-/

namespace Recurrence.Text

set_option autoImplicit false

/-- The number that a run of one or more decimal digits writes. -/
def natural? (cs : List Char) : Option Nat :=
  if cs ≠ [] ∧ cs.all Char.isDigit then some (Nat.ofDigitChars 10 cs 0) else none

/-- A number of at most `max`, perhaps after a plus sign. -/
def unsigned? (max : Nat) (cs : List Char) : Option Nat :=
  let digits := match cs with
    | '+' :: rest => rest
    | _ => cs
  (natural? digits).filter (· ≤ max)

/-- A number from `lo` to `hi`, perhaps after a sign. -/
def signed? (lo hi : Int) (cs : List Char) : Option Int :=
  let value : Option Int := match cs with
    | '-' :: rest => (natural? rest).map fun n => -(n : Int)
    | '+' :: rest => (natural? rest).map fun n => (n : Int)
    | _ => (natural? cs).map fun n => (n : Int)
  value.filter fun z => lo ≤ z && z ≤ hi

def digits (n : Nat) : List Char := Nat.toDigits 10 n

/-- The decimal digits of `n`, with zeros in front up to `width`. -/
def padded (width n : Nat) : List Char := (digits n).leftpad width '0'

/-- The decimal digits of `z`, after a minus sign if it is negative. -/
def integer (z : Int) : List Char :=
  if z < 0 then '-' :: digits z.natAbs else digits z.natAbs

theorem isDigit_of_mem_digits {n : Nat} {c : Char} (h : c ∈ digits n) : c.isDigit :=
  Nat.isDigit_of_mem_toDigits (by decide) (by decide) h

theorem digits_ne_nil (n : Nat) : digits n ≠ [] := Nat.toDigits_ne_nil

theorem natural?_digits (n : Nat) : natural? (digits n) = some n := by
  have hd : ∀ c ∈ Nat.toDigits 10 n, c.isDigit := fun _ hc => isDigit_of_mem_digits hc
  simpa [natural?, digits, Nat.ofDigitChars_toDigits] using hd

end Recurrence.Text
