import Recurrence.Text.Alphanumeric
import Recurrence.Text.Blank

/-!
# Files of variables

Each line sets a variable. A value may be quoted, may escape characters, and may name other
variables; a quoted value may run over several lines. Reading stops at the first line that is
malformed.
-/

namespace Recurrence.Settings.Dotenv

set_option autoImplicit false

open Text

structure Variable where
  name : List Char
  value : List Char
deriving DecidableEq

def lookup? (environment : List Variable) (name : List Char) : Option (List Char) :=
  (environment.find? fun v => v.name = name).map Variable.value

/-- Where in a value a character stands. -/
inductive Mode
  | plain
  | strong
  | weak
  | escaped (inQuotes : Bool)
  /-- In the name of a variable, read backwards. -/
  | naming (inQuotes : Bool) (name : List Char)
  /-- In the name of a variable between braces, read backwards. -/
  | braced (inQuotes : Bool) (name : List Char)
  | ended
deriving DecidableEq

def outside (inQuotes : Bool) : Mode := if inQuotes then .weak else .plain

def readValue (get : List Char → List Char) : Mode → List Char → Option (List Char)
  | .plain, [] | .ended, [] | .escaped false, [] => some []
  | .naming false name, [] => some (get name.reverse)
  | .strong, [] | .weak, [] | .escaped true, [] | .naming true _, [] | .braced _ _, [] => none
  | .ended, c :: rest =>
    if c = ' ' ∨ c = '\t' then readValue get .ended rest else if c = '#' then some [] else none
  | .escaped inQuotes, c :: rest =>
    if c = '\\' ∨ c = '\'' ∨ c = '"' ∨ c = '$' ∨ c = ' ' then
      (readValue get (outside inQuotes) rest).map (c :: ·)
    else if c = 'n' then (readValue get (outside inQuotes) rest).map ('\n' :: ·)
    else none
  | .strong, c :: rest =>
    if c = '\'' then readValue get .plain rest else (readValue get .strong rest).map (c :: ·)
  | .naming inQuotes name, c :: rest =>
    if isAlphanumeric c then readValue get (.naming inQuotes (c :: name)) rest
    else if c = '{' ∧ name = [] then readValue get (.braced inQuotes []) rest
    else if c = '$' then
      (readValue get (.naming inQuotes []) rest).map (get name.reverse ++ ·)
    else (readValue get (outside inQuotes) rest).map (get name.reverse ++ c :: ·)
  | .braced inQuotes name, c :: rest =>
    if c = '}' then (readValue get (outside inQuotes) rest).map (get name.reverse ++ ·)
    else readValue get (.braced inQuotes (c :: name)) rest
  | .weak, c :: rest =>
    if c = '$' then readValue get (.naming true []) rest
    else if c = '"' then readValue get .plain rest
    else if c = '\\' then readValue get (.escaped true) rest
    else (readValue get .weak rest).map (c :: ·)
  | .plain, c :: rest =>
    if c = '$' then readValue get (.naming false []) rest
    else if c = '\'' then readValue get .strong rest
    else if c = '"' then readValue get .weak rest
    else if c = '\\' then readValue get (.escaped false) rest
    else if c = ' ' ∨ c = '\t' then readValue get .ended rest
    else (readValue get .plain rest).map (c :: ·)

def isNameStart (c : Char) : Bool := c.isAlpha || c = '_'

def isNameChar (c : Char) : Bool := c.isAlphanum || c = '_' || c = '.'

def readName (cs : List Char) : Option (List Char × List Char) :=
  if cs.head?.any isNameStart then
    some (cs.takeWhile isNameChar, (cs.dropWhile isNameChar).dropWhile isBlank)
  else none

/-- The name and the rest of a line; the word `export` may stand in front. -/
def readAssignment (cs : List Char) : Option (List Char × List Char) := do
  let (name, rest) ← readName cs
  match rest with
  | '=' :: rest => return (name, rest.dropWhile isBlank)
  | rest =>
    if String.ofList name ≠ "export" then
      none
    let (name, rest) ← readName rest
    let '=' :: rest := rest | none
    return (name, rest.dropWhile isBlank)

/-- What a line sets; a blank line and a comment set nothing. -/
def readLine (get : List Char → List Char) (cs : List Char) : Option (Option Variable) :=
  match trim cs with
  | [] | '#' :: _ => some none
  | line => do
    let (name, value) ← readAssignment line
    if value.head? = some '#' then
      return some ⟨name, []⟩
    return some ⟨name, ← readValue get .plain value⟩

/-! ### Lines -/

/-- Where a line may end, and what a number sign means. -/
inductive LineMode
  | plain
  /-- After a white space, where a number sign begins a comment. -/
  | spaced
  | escaped
  /-- Between a pair of quotes or of apostrophes. -/
  | quoted (quote : Char)
  | quotedEscaped (quote : Char)
deriving DecidableEq

/-- The mode after a character. -/
def LineMode.next (mode : LineMode) (c : Char) : LineMode :=
  let fresh : LineMode :=
    if c = '\\' then .escaped else if c = '"' ∨ c = '\'' then .quoted c else .plain
  match mode with
  | plain => if isBlank c && c ≠ '\n' && c ≠ '\r' then .spaced else fresh
  | spaced => fresh
  | escaped => .plain
  | quoted quote => if c = '\\' then .quotedEscaped quote else if c = quote then .plain else mode
  | quotedEscaped quote => .quoted quote

/-- Follows a line to its end, or up to a comment, which has no mode. -/
def scan (mode : LineMode) : List Char → List Char × Option LineMode
  | [] => ([], some mode)
  | c :: cs =>
    if mode = .spaced ∧ c = '#' then ([], none)
    else
      let (kept, last) := scan (mode.next c) cs
      (c :: kept, last)

def splitLines : List Char → List (List Char)
  | [] => []
  | c :: cs =>
    if c = '\n' then [c] :: splitLines cs
    else match splitLines cs with
      | [] => [[c]]
      | line :: lines => (c :: line) :: lines

structure Reader where
  /-- The variables that are set, and keep their values. -/
  set : List Variable
  /-- What the lines so far have said, the latest first. -/
  earlier : List Variable := []
  /-- The lines that belong to a value that has not ended. -/
  pending : List Char := []
  mode : LineMode := .plain

namespace Reader

def get (r : Reader) (name : List Char) : List Char :=
  ((lookup? r.set name).or (lookup? r.earlier name)).getD []

/-- Takes a whole line; a variable that is set already keeps its value. -/
def take (r : Reader) (cs : List Char) : Option Reader :=
  (readLine r.get cs).map fun
    | none => { r with pending := [], mode := .plain }
    | some v =>
      { set := if (lookup? r.set v.name).isSome then r.set else r.set ++ [v]
        earlier := v :: r.earlier }

/-- Reads lines up to the first that is malformed or has no end. -/
def readAll (r : Reader) : List (List Char) → List Variable
  | [] => r.set
  | cs :: rest =>
    let text := r.pending ++ cs
    let whole (text : List Char) : List Variable :=
      match r.take text with
      | none => r.set
      | some r => readAll r rest
    if (text.dropWhile isBlank).head? = some '#' then whole []
    else match scan r.mode cs with
      | (kept, none) => whole (r.pending ++ kept)
      | (_, some .plain) => whole text
      | (_, some mode) => readAll { r with pending := text, mode } rest

end Reader

def addTo (set : List Variable) (cs : List Char) : List Variable :=
  let text := match cs with
    | '\ufeff' :: rest => rest
    | _ => cs
  Reader.readAll { set } (splitLines text)

end Recurrence.Settings.Dotenv
