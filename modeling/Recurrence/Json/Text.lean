/-!
# Strings of JSON

Written strings escape the quote, the backslash and the control characters. Read strings may escape
any character, outside the basic plane by a pair of surrogates.
-/

namespace Recurrence.Json

set_option autoImplicit false

/-! ### Writing -/

def hexDigit (n : Nat) : Char := Nat.digitChar (n % 16)

def escaped (c : Char) : List Char :=
  match c with
  | '"' => ['\\', '"']
  | '\\' => ['\\', '\\']
  | '\x08' => ['\\', 'b']
  | '\t' => ['\\', 't']
  | '\n' => ['\\', 'n']
  | '\x0c' => ['\\', 'f']
  | '\r' => ['\\', 'r']
  | _ =>
    if c.toNat < 0x20 then ['\\', 'u', '0', '0', hexDigit (c.toNat / 16), hexDigit c.toNat] else [c]

def writeText (cs : List Char) : List Char := '"' :: cs.flatMap escaped ++ ['"']

/-! ### Reading -/

def hexValue? (c : Char) : Option Nat :=
  if c.isDigit then some (c.toNat - 48)
  else if 'a' ≤ c ∧ c ≤ 'f' then some (c.toNat - 87)
  else if 'A' ≤ c ∧ c ≤ 'F' then some (c.toNat - 55)
  else none

def readUnit : List Char → Option (Nat × List Char)
  | a :: b :: c :: d :: rest => do
    let a ← hexValue? a
    let b ← hexValue? b
    let c ← hexValue? c
    let d ← hexValue? d
    return (((a * 16 + b) * 16 + c) * 16 + d, rest)
  | _ => none

/-- The character of one unit, or of a high surrogate and the low one that must follow. -/
def readCodePoint (cs : List Char) : Option (Char × List Char) := do
  let (unit, rest) ← readUnit cs
  if unit < 0xd800 ∨ 0xdfff < unit then
    return (Char.ofNat unit, rest)
  if 0xdc00 ≤ unit then
    none
  match rest with
  | '\\' :: 'u' :: rest =>
    let (low, rest) ← readUnit rest
    if low < 0xdc00 ∨ 0xdfff < low then
      none
    return (Char.ofNat (0x10000 + (unit - 0xd800) * 0x400 + (low - 0xdc00)), rest)
  | _ => none

def readEscape : List Char → Option (Char × List Char)
  | '"' :: rest => some ('"', rest)
  | '\\' :: rest => some ('\\', rest)
  | '/' :: rest => some ('/', rest)
  | 'b' :: rest => some ('\x08', rest)
  | 'f' :: rest => some ('\x0c', rest)
  | 'n' :: rest => some ('\n', rest)
  | 'r' :: rest => some ('\r', rest)
  | 't' :: rest => some ('\t', rest)
  | 'u' :: rest => readCodePoint rest
  | _ => none

/-- The rest of a string up to its closing quote, in at most so many characters. -/
def readTextRest : Nat → List Char → Option (List Char × List Char)
  | 0, _ | _, [] => none
  | _ + 1, '"' :: rest => some ([], rest)
  | fuel + 1, '\\' :: rest => do
    let (c, rest) ← readEscape rest
    let (cs, rest) ← readTextRest fuel rest
    return (c :: cs, rest)
  | fuel + 1, c :: rest =>
    if c.toNat < 0x20 then none
    else do
      let (cs, rest) ← readTextRest fuel rest
      return (c :: cs, rest)

def readText : List Char → Option (List Char × List Char)
  | '"' :: rest => readTextRest rest.length rest
  | _ => none

end Recurrence.Json
