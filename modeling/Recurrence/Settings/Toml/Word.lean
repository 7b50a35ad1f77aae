import Recurrence.Json.Text
import Recurrence.Settings.Toml.Moment
import Recurrence.Settings.Value
import Recurrence.Text.Split

/-!
# Words of settings files

A value without quotes or brackets is one word: a truth value, a number, a date or a time. Digits
may be grouped by single underscores, and a number must fit its type.
-/

namespace Recurrence.Settings.Toml

set_option autoImplicit false

open Text

/-- Digits with single underscores between them, without the underscores. -/
def groups? (isDigit : Char → Bool) (cs : List Char) : Option (List Char) :=
  let groups := splitOn '_' cs
  if groups.all fun g => !g.isEmpty && g.all isDigit then some groups.flatten else none

def plain? (cs : List Char) : Option Nat := do
  let ds ← groups? Char.isDigit cs
  if cs.length ≠ 1 ∧ cs.head? = some '0' then
    none
  natural? ds

def radix? (base : Nat) (cs : List Char) : Option Nat := do
  let ds ← groups? (fun c => (Json.hexValue? c).any (· < base)) cs
  ds.foldlM (fun n c => (Json.hexValue? c).map (n * base + ·)) 0

def unsignedInteger? : List Char → Option Nat
  | '0' :: 'x' :: rest => radix? 16 rest
  | '0' :: 'o' :: rest => radix? 8 rest
  | '0' :: 'b' :: rest => radix? 2 rest
  | cs => plain? cs

def integer? (cs : List Char) : Option Int := do
  let n ← match cs with
    | '-' :: rest => (plain? rest).map fun n => -(n : Int)
    | '+' :: rest => (plain? rest).map Int.ofNat
    | _ => (unsignedInteger? cs).map Int.ofNat
  if -9223372036854775808 ≤ n ∧ n ≤ 9223372036854775807 then some n else none

def isDigitOrGroup (c : Char) : Bool := c.isDigit || c = '_'

/-- What follows a fraction, if there is one. -/
def afterFraction? : List Char → Option (List Char)
  | '.' :: rest => do
    let _ ← groups? Char.isDigit (rest.takeWhile isDigitOrGroup)
    return rest.dropWhile isDigitOrGroup
  | rest => some rest

def isExponent : List Char → Bool
  | e :: '-' :: ds | e :: '+' :: ds | e :: ds =>
    e.toLower = 'e' && (groups? Char.isDigit ds).isSome
  | [] => false

/-- A number with a fraction or an exponent; its integer part has no leading zeros, and it is not so
large that it rounds to infinity. -/
def float? (cs : List Char) : Option Decimal.Double := do
  let body := match cs with
    | '-' :: rest | '+' :: rest => rest
    | _ => cs
  let _ ← plain? (body.takeWhile isDigitOrGroup)
  let rest := body.dropWhile isDigitOrGroup
  let exponent ← afterFraction? rest
  if rest ≠ [] ∧ (exponent = [] ∨ isExponent exponent) then
    (Decimal.parse? (cs.filter (· ≠ '_'))).filter Decimal.Double.isFinite
  else none

def word? (cs : List Char) : Option Value :=
  let word := String.ofList cs
  if word = "true" then some (.bool true)
  else if word = "false" then some (.bool false)
  else if word = "inf" ∨ word = "+inf" then some (.float .infinity)
  else if word = "-inf" then some (.float (.infinite true))
  else if word = "nan" ∨ word = "+nan" ∨ word = "-nan" then some (.float .notANumber)
  else match integer? cs with
    | some n => some (.integer n)
    | none => ((float? cs).map .float).or ((moment? cs).map .text)

def isWordChar (c : Char) : Bool :=
  c.isAlphanum || c = '_' || c = '+' || c = '-' || c = '.' || c = ':'

/-- The characters of a word and what follows it. A date and a time may have a space between
them. -/
def splitWord (cs : List Char) : List Char × List Char :=
  let word := cs.takeWhile isWordChar
  match cs.dropWhile isWordChar with
  | ' ' :: c :: rest =>
    if c.isDigit ∧ date? word = some (word, []) then
      (word ++ ' ' :: (c :: rest).takeWhile isWordChar, (c :: rest).dropWhile isWordChar)
    else (word, ' ' :: c :: rest)
  | rest => (word, rest)

end Recurrence.Settings.Toml
