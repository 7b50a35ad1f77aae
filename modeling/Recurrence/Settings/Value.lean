import Recurrence.Decimal.Parser
import Recurrence.Decimal.Shortest
import Recurrence.Settings.Path

/-!
# Values of settings

Settings form a tree of tables and lists. A change at a path makes the tables and lists on the way;
whatever else was there is lost. A table put over a table joins it, and any other value replaces
what was there.
-/

namespace Recurrence.Settings

set_option autoImplicit false

inductive Value
  /-- No value; a list that is made longer holds it. -/
  | nil
  | bool (value : Bool)
  | integer (value : Int)
  | float (value : Decimal.Double)
  | text (value : List Char)
  | list (items : List Value)
  | table (entries : List (Name × Value))

abbrev Entries := List (Name × Value)

namespace Value

/-- The entries of a table; other values have none. -/
def entries : Value → Entries
  | table entries => entries
  | _ => []

def items : Value → List Value
  | list items => items
  | _ => []

/-! ### Changes -/

/-- Changes the entry with a name, which is nil if it is missing. -/
def updateEntry (f : Value → Value) (name : Name) : Entries → Entries
  | [] => [(name, f nil)]
  | entry :: rest =>
    if entry.1 = name then (name, f entry.2) :: rest else entry :: updateEntry f name rest

/-- Changes the item with an index. A list that is too short is filled with nil, after its items,
or before them if the index counts from the end. -/
def updateItem (f : Value → Value) (index : Int) (items : List Value) : List Value :=
  let missing (n : Nat) := List.replicate (n - items.length) nil
  if index < 0 then
    let all := missing index.natAbs ++ items
    all.modify (all.length - index.natAbs) f
  else (items ++ missing (index.natAbs + 1)).modify index.natAbs f

def update (f : Value → Value) : Path → Value → Value
  | [], v => f v
  | .name name :: path, v => table (updateEntry (update f path) name v.entries)
  | .index index :: path, v => list (updateItem (update f path) index v.items)

mutual

/-- A value put over an older one. -/
def mergeInto : Value → Value → Value
  | table entries, old => table (mergeEntries entries old.entries)
  | v, _ => v

def mergeEntries : Entries → Entries → Entries
  | [], old => old
  | (name, v) :: rest, old => mergeEntries rest (updateEntry v.mergeInto name old)

end

/-- A layer put over a tree; its names are read as paths. -/
def putLayer (tree : Value) (layer : Entries) : Value :=
  layer.foldl (fun tree entry => tree.update entry.2.mergeInto (.ofText entry.1)) tree

theorem lookup_updateEntry_self (f : Value → Value) (name : Name) (entries : Entries) :
    (updateEntry f name entries).lookup name = some (f ((entries.lookup name).getD nil)) := by
  induction entries with
  | nil => simp [updateEntry]
  | cons entry rest ih =>
    obtain ⟨key, old⟩ := entry
    by_cases h : key = name
    · simp [updateEntry, h]
    · have hn : (name == key) = false := by simpa using Ne.symm h
      simp [updateEntry, List.lookup_cons, h, hn, ih]

theorem lookup_updateEntry_ne (f : Value → Value) {name other : Name} (h : other ≠ name)
    (entries : Entries) : (updateEntry f name entries).lookup other = entries.lookup other := by
  have ho : (other == name) = false := by simpa using h
  induction entries with
  | nil => simp [updateEntry, List.lookup_cons, ho]
  | cons entry rest ih =>
    obtain ⟨key, old⟩ := entry
    by_cases he : key = name
    · simp [updateEntry, List.lookup_cons, he, ho]
    · simp [updateEntry, List.lookup_cons, he, ih]

theorem mergeInto_of_ne_table {v : Value} (h : ∀ entries, v ≠ table entries) (old : Value) :
    v.mergeInto old = v := by
  cases v <;> simp_all [mergeInto]

theorem mergeInto_table (entries : Entries) (old : Value) :
    (table entries).mergeInto old = table (mergeEntries entries old.entries) := by
  simp [mergeInto]

/-! ### What values say -/

/-- The value as a natural number: text may name a truth value or be a number, and a fraction is
rounded. -/
def natural? : Value → Option Nat
  | bool b => some (if b then 1 else 0)
  | integer n => if 0 ≤ n then some n.toNat else none
  | float f => some f.natural
  | text cs =>
    let word := String.ofList (cs.map Char.toLower)
    if word = "true" ∨ word = "on" ∨ word = "yes" then some 1
    else if word = "false" ∨ word = "off" ∨ word = "no" then some 0
    else Text.unsigned? 18446744073709551615 cs
  | nil | list _ | table _ => none

def text? : Value → Option (List Char)
  | bool true => some ['t', 'r', 'u', 'e']
  | bool false => some ['f', 'a', 'l', 's', 'e']
  | integer n => some (Text.integer n)
  | float f => some (Decimal.text f)
  | text cs => some cs
  | nil | list _ | table _ => none

/-- The values of a record: those that a table holds under the names, or the first items of a
list. -/
def fields? (names : List Name) : Value → Option (List Value)
  | table entries => names.mapM fun name => entries.lookup name
  | list items => if items.length < names.length then none else some (items.take names.length)
  | _ => none

end Value

end Recurrence.Settings
