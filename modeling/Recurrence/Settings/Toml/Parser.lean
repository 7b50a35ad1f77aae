import Recurrence.Settings.Toml.Document
import Recurrence.Settings.Toml.Word
import Recurrence.Settings.Toml.Text

/-!
# Reading settings files

Settings files are written in TOML. Lists and inline tables nest at most 80 deep, and a key has at
most 80 names.
-/

namespace Recurrence.Settings.Toml

set_option autoImplicit false

def maxDepth : Nat := 80

/-- The rest of a list: items with commas between them, and perhaps one after the last. -/
def listRest? (item : List Char → Option (Value × List Char)) :
    Nat → List Char → Option (List Value × List Char)
  | 0, _ => none
  | fuel + 1, cs =>
    match skipLines cs.length cs with
    | ']' :: rest => some ([], rest)
    | cs => do
      let (first, rest) ← item cs
      match skipLines rest.length rest with
      | ']' :: rest => return ([first], rest)
      | ',' :: rest =>
        let (others, rest) ← listRest? item fuel rest
        return (first :: others, rest)
      | _ => none

def keyValue? (value : List Char → Option (Value × List Char)) (d : Document) (cs : List Char) :
    Option (Document × List Char) := do
  let (names, rest) ← names? maxDepth cs
  let '=' :: rest := rest | none
  let (v, rest) ← value (skipSpace rest)
  return (← d.setKey names v, rest)

/-- The rest of an inline table: keys with commas between them, and perhaps one after the last. -/
def tableRest? (value : List Char → Option (Value × List Char)) :
    Nat → Document → List Char → Option (Value × List Char)
  | 0, _, _ => none
  | fuel + 1, d, cs =>
    match skipLines cs.length cs with
    | '}' :: rest => some (d.root, rest)
    | cs => do
      let (d, rest) ← keyValue? value d cs
      match skipLines rest.length rest with
      | '}' :: rest => return (d.root, rest)
      | ',' :: rest => tableRest? value fuel d rest
      | _ => none

def scalar? (cs : List Char) : Option (Value × List Char) :=
  if cs.head? = some '"' ∨ cs.head? = some '\'' then
    (string? cs).map fun (text, rest) => (.text text, rest)
  else
    let (word, rest) := splitWord cs
    (word? word).map fun v => (v, rest)

/-- A value in which lists and inline tables nest at most so deep. -/
def value? : Nat → List Char → Option (Value × List Char)
  | depth + 1, '[' :: rest =>
    (listRest? (value? depth) rest.length rest).map fun (items, rest) => (.list items, rest)
  | depth + 1, '{' :: rest => tableRest? (value? depth) rest.length {} rest
  | _, cs => scalar? cs

def line? (d : Document) (cs : List Char) : Option (Document × List Char) :=
  match cs with
  | '[' :: '[' :: rest => do
    let (names, rest) ← names? maxDepth rest
    let ']' :: ']' :: rest := rest | none
    return (← d.openNext names, ← endLine? rest)
  | '[' :: rest => do
    let (names, rest) ← names? maxDepth rest
    let ']' :: rest := rest | none
    return (← d.openTable names, ← endLine? rest)
  | cs => do
    let (d, rest) ← keyValue? (value? maxDepth) d cs
    return (d, ← endLine? rest)

/-- Reads at most so many lines. -/
def document? : Nat → Document → List Char → Option Document
  | 0, _, _ => none
  | fuel + 1, d, cs =>
    match skipLines cs.length cs with
    | [] => some d
    | cs => do
      let (d, rest) ← line? d cs
      document? fuel d rest

/-- A text after its byte order mark. -/
def withoutMark : List Char → List Char
  | '\ufeff' :: rest => rest
  | cs => cs

/-- The entries of a document; a byte order mark may stand in front. -/
def parse? (cs : List Char) : Option Entries :=
  let text := withoutMark cs
  (document? (text.length + 1) {} text).map fun d => d.root.entries

end Recurrence.Settings.Toml
