import Recurrence.Settings.Value

/-!
# Documents of settings files

A document is built by opening tables and setting keys. A key is set once and a table is opened
once; the dotted keys of a table reach only the tables that dotted keys have made.
-/

namespace Recurrence.Settings.Toml

set_option autoImplicit false

/-- How a path has come into a document. -/
inductive Origin
  | value
  /-- As a table that has been opened by its own name. -/
  | opened
  /-- As a table on the way to an opened one. -/
  | passed
  /-- As a table on the way to a dotted key. -/
  | dotted
  /-- As a list of tables that have been opened by the same name. -/
  | tables (count : Nat)
deriving DecidableEq

structure Document where
  root : Value := .table []
  origins : List (Path × Origin) := []
  /-- The table that has been opened last. -/
  current : Path := []

namespace Document

def origin? (d : Document) (path : Path) : Option Origin := d.origins.lookup path

def mark (d : Document) (path : Path) (origin : Origin) : Document :=
  { d with origins := (path, origin) :: d.origins }

/-- Walks on from a path by one name. Of a list of tables, the last one is meant. -/
def enter (made : Origin) (place : Document × Path) (name : Name) : Option (Document × Path) :=
  let (d, path) := place
  let path := path ++ [.name name]
  match d.origin? path with
  | none => some (d.mark path made, path)
  | some .value => none
  | some .opened => if made = .dotted then none else some (d, path)
  | some .passed | some .dotted => some (d, path)
  | some (.tables count) => some (d, path ++ [.index (count - 1 : Nat)])

/-- Makes what is at a path a table, which keeps its entries. -/
def openAt (d : Document) (path : Path) : Document :=
  { d.mark path .opened with
    root := d.root.update (fun v => .table v.entries) path
    current := path }

/-- Opens a table, once. -/
def openTable (d : Document) (names : List Name) : Option Document := do
  let name ← names.getLast?
  let (d, path) ← names.dropLast.foldlM (enter .passed) (d, [])
  let path := path ++ [.name name]
  match d.origin? path with
  | none | some .passed => return d.openAt path
  | _ => none

/-- Opens one more table of a list. -/
def openNext (d : Document) (names : List Name) : Option Document := do
  let name ← names.getLast?
  let (d, path) ← names.dropLast.foldlM (enter .passed) (d, [])
  let path := path ++ [.name name]
  let count ← match d.origin? path with
    | none => some 0
    | some (.tables count) => some count
    | _ => none
  return (d.mark path (.tables (count + 1))).openAt (path ++ [.index count])

/-- Sets a key of the open table, once. -/
def setKey (d : Document) (names : List Name) (value : Value) : Option Document := do
  let name ← names.getLast?
  let (d, path) ← names.dropLast.foldlM (enter .dotted) (d, d.current)
  if names.length ≠ 1 ∧ d.origin? path ≠ some .dotted then
    none
  let path := path ++ [.name name]
  if (d.origin? path).isSome then
    none
  return { d.mark path .value with root := d.root.update (fun _ => value) path }

end Document

end Recurrence.Settings.Toml
