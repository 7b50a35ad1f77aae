import Recurrence.Json.Text
import Recurrence.Settings.Path
import Recurrence.Text.Split

/-!
# Lines, names and strings of settings files

Readers yield what they have read and the characters that follow it. A string stands between quotes,
where a backslash escapes, or between apostrophes; three of them let it run over several lines.
-/

namespace Recurrence.Settings.Toml

set_option autoImplicit false

/-! ### White space -/

def isSpace (c : Char) : Bool := c = ' ' || c = '\t'

def skipSpace (cs : List Char) : List Char := cs.dropWhile isSpace

/-- Whether a control character stands where only the tab may. -/
def isControl (c : Char) : Bool := (c.toNat < 0x20 && c ≠ '\t') || c.toNat = 0x7f

def skipComment : List Char → List Char
  | '#' :: rest => rest.dropWhile fun c => !isControl c
  | cs => cs

/-- What follows the end of a line, after white space and a comment. -/
def endLine? (cs : List Char) : Option (List Char) :=
  match skipComment (skipSpace cs) with
  | [] => some []
  | '\n' :: rest | '\r' :: '\n' :: rest => some rest
  | _ => none

/-- Skips white space, ends of lines and comments, in at most so many lines. -/
def skipLines : Nat → List Char → List Char
  | 0, cs => cs
  | fuel + 1, cs =>
    match skipComment (skipSpace cs) with
    | '\n' :: rest | '\r' :: '\n' :: rest => skipLines fuel rest
    | cs => cs

/-! ### Strings -/

def hexNumber? (cs : List Char) : Option Nat :=
  cs.foldlM (fun n c => (Json.hexValue? c).map (n * 16 + ·)) 0

def codePoint? (count : Nat) (cs : List Char) : Option (Char × List Char) := do
  if cs.length < count then
    none
  let n ← hexNumber? (cs.take count)
  if n < 0xd800 ∨ (0xdfff < n ∧ n < 0x110000) then
    return (Char.ofNat n, cs.drop count)
  none

def escape? : List Char → Option (Char × List Char)
  | '"' :: rest => some ('"', rest)
  | '\\' :: rest => some ('\\', rest)
  | 'b' :: rest => some ('\x08', rest)
  | 'e' :: rest => some ('\x1b', rest)
  | 'f' :: rest => some ('\x0c', rest)
  | 'n' :: rest => some ('\n', rest)
  | 'r' :: rest => some ('\r', rest)
  | 't' :: rest => some ('\t', rest)
  | 'x' :: rest => codePoint? 2 rest
  | 'u' :: rest => codePoint? 4 rest
  | 'U' :: rest => codePoint? 8 rest
  | _ => none

/-- Skips white space and ends of lines, at most so many. -/
def skipBlankLines : Nat → List Char → List Char
  | 0, cs => cs
  | fuel + 1, cs =>
    match skipSpace cs with
    | '\n' :: rest | '\r' :: '\n' :: rest => skipBlankLines fuel rest
    | cs => cs

/-- What follows a backslash at the end of a line, without the blank lines after it. -/
def continued? (cs : List Char) : Option (List Char) :=
  match skipSpace cs with
  | '\n' :: rest | '\r' :: '\n' :: rest => some (skipBlankLines (rest.length + 1) rest)
  | _ => none

/-- The rest of a string between quotes, in at most so many characters. -/
def basicRest? : Nat → List Char → Option (List Char × List Char)
  | 0, _ | _, [] => none
  | _ + 1, '"' :: rest => some ([], rest)
  | fuel + 1, '\\' :: rest => do
    let (c, rest) ← escape? rest
    let (cs, rest) ← basicRest? fuel rest
    return (c :: cs, rest)
  | fuel + 1, c :: rest =>
    if isControl c then none
    else do
      let (cs, rest) ← basicRest? fuel rest
      return (c :: cs, rest)

/-- A string between apostrophes, where nothing is escaped. -/
def literalRest? (cs : List Char) : Option (List Char × List Char) :=
  match cs.dropWhile fun c => c ≠ '\'' && !isControl c with
  | '\'' :: rest => some (cs.takeWhile fun c => c ≠ '\'' && !isControl c, rest)
  | _ => none

/-- What follows three quotes that close a string; two more before them belong to it. -/
def closing? (quote : Char) (cs : List Char) : Option (List Char × List Char) :=
  let count := (cs.takeWhile (· = quote)).length
  if count < 3 then none
  else
    let own := min (count - 3) 2
    some (cs.take own, cs.drop (own + 3))

/-- The rest of a string of several lines, in at most so many characters. Nothing is escaped between
apostrophes. -/
def blockRest? (quote : Char) : Nat → List Char → Option (List Char × List Char)
  | 0, _ | _, [] => none
  | fuel + 1, c :: rest =>
    let next (c : Char) (rest : List Char) : Option (List Char × List Char) := do
      let (cs, rest) ← blockRest? quote fuel rest
      return (c :: cs, rest)
    if c = quote then (closing? quote (c :: rest)).or (next c rest)
    else if c = '\\' ∧ quote = '"' then
      match continued? rest with
      | some rest => blockRest? quote fuel rest
      | none => do
        let (c, rest) ← escape? rest
        next c rest
    else if c = '\n' ∨ (c = '\r' ∧ rest.head? = some '\n') ∨ !isControl c then next c rest
    else none

/-- A string of several lines without the end of line that may follow its opening quotes. -/
def block? (quote : Char) : List Char → Option (List Char × List Char)
  | '\n' :: rest | '\r' :: '\n' :: rest => blockRest? quote rest.length rest
  | cs => blockRest? quote cs.length cs

def string? : List Char → Option (List Char × List Char)
  | '"' :: '"' :: '"' :: rest => block? '"' rest
  | '\'' :: '\'' :: '\'' :: rest => block? '\'' rest
  | '"' :: rest => basicRest? rest.length rest
  | '\'' :: rest => literalRest? rest
  | _ => none

/-! ### Names -/

def isBare (c : Char) : Bool := c.isAlphanum || c = '_' || c = '-'

def name? : List Char → Option (Name × List Char)
  | '"' :: rest => basicRest? rest.length rest
  | '\'' :: rest => literalRest? rest
  | cs =>
    match cs.takeWhile isBare with
    | [] => none
    | name => some (name, cs.dropWhile isBare)

/-- Names with points between them, at most so many. -/
def names? : Nat → List Char → Option (List Name × List Char)
  | 0, _ => none
  | fuel + 1, cs => do
    let (name, rest) ← name? (skipSpace cs)
    match skipSpace rest with
    | '.' :: rest =>
      let (names, rest) ← names? fuel rest
      return (name :: names, rest)
    | rest => return ([name], rest)

end Recurrence.Settings.Toml
