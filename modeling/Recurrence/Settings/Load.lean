import Recurrence.Expansion.RuleSet
import Recurrence.Settings.Basic
import Recurrence.Settings.Dotenv
import Recurrence.Settings.FilePath
import Recurrence.Settings.Toml.Parser

/-!
# Loading settings

Defaults come first, then a file, then the variables of the environment. The file and the variables
are joined before they are put over the defaults, and what all say together is checked at the end.
Which formats of files there are besides TOML, and in which order the entries of a table are taken,
is up to the loader (`Loader`).
-/

namespace Recurrence.Settings

set_option autoImplicit false

open Text Dotenv

/-- The files, by their paths, and the variables that a program sees. -/
structure Surroundings where
  files : List (String × String) := []
  environment : List Variable := []

namespace Surroundings

def file? (s : Surroundings) (path : String) : Option (List Char) :=
  (s.files.lookup path).map String.toList

/-- The file of variables in the folder that is so many above the working one. -/
def dotenvPath : Nat → String
  | 0 => ".env"
  | up + 1 => "../" ++ dotenvPath up

/-- More than the folders that the path of a file can go up. -/
def farthest (s : Surroundings) : Nat := s.files.foldr (fun file n => file.1.length + n) 0

/-- The nearest file of variables, in the working folder or in one above it. -/
def dotenv? (s : Surroundings) : Option (List Char) :=
  (List.range s.farthest).findSome? fun up => s.file? (dotenvPath up)

/-- The surroundings after the variables of a file of variables have been set. -/
def withDotenv (s : Surroundings) : Surroundings :=
  match s.dotenv? with
  | none => s
  | some text => { s with environment := Dotenv.addTo s.environment text }

end Surroundings

/-! ### The layer of the environment -/

def variableStem : List Char := ['r', 'e', 'c', 'u', 'r', '_']

/-- Two underscores separate the names of a path. -/
def dotted : List Char → List Char
  | '_' :: '_' :: rest => '.' :: dotted rest
  | c :: rest => c :: dotted rest
  | [] => []

/-- The path that a variable sets, as a text. -/
def variableKey? (name : List Char) : Option Name :=
  let name := name.map Char.toLower
  if variableStem.isPrefixOf name then some (dotted (name.drop variableStem.length)) else none

/-- A variable as a truth value, a number or else a text. -/
def variableValue (cs : List Char) : Value :=
  let word := String.ofList (cs.map Char.toLower)
  if word = "true" then .bool true
  else if word = "false" then .bool false
  else match signed? (-9223372036854775808) 9223372036854775807 cs with
    | some n => .integer n
    | none =>
      match Decimal.parse? cs with
      | some f => .float f
      | none => .text cs

/-- The entry of a variable; one without a value does not count. -/
def variableSetting? (v : Variable) : Option (Name × Value) :=
  if v.value = [] then none
  else (variableKey? v.name).map fun key => (key, variableValue v.value)

/-- The last one of the entries with each name. -/
def lastOfNames : Entries → Entries
  | [] => []
  | entry :: rest =>
    if entry.1 ∈ rest.map Prod.fst then lastOfNames rest else entry :: lastOfNames rest

def variableEntries (environment : List Variable) : Entries :=
  lastOfNames (environment.filterMap variableSetting?)

/-! ### Loaders -/

inductive Layer
  | file
  | environment
  /-- The file and the variables together. -/
  | joined
deriving DecidableEq, Repr

/-- What loading settings leaves open. -/
structure Loader where
  /-- The formats of files, in the order in which they are tried. -/
  formats : List Format
  toml_mem : .toml ∈ formats
  /-- The entries of a text in a format other than TOML. -/
  readOther : Format → List Char → Option Entries
  /-- The order in which the entries of a layer are taken. The names in a table of a layer are no
  paths, so that their order makes no difference. -/
  order : Layer → Entries → Entries
  order_perm (layer : Layer) (entries : Entries) : (order layer entries).Perm entries

namespace Loader

/-- Takes entries as they stand, and reads no format but TOML. -/
def plain : Loader where
  formats := Format.all
  toml_mem := by decide
  readOther _ _ := none
  order _ entries := entries
  order_perm _ entries := .refl entries

end Loader

/-! ### The layer of the file -/

def defaultFile : String := "recur.toml"

namespace Loader

/-- The entries of a text; a byte order mark may stand in front. -/
def read (l : Loader) (format : Format) (cs : List Char) : Option Entries :=
  match format with
  | .toml => Toml.parse? (Toml.withoutMark cs)
  | format => l.readOther format (Toml.withoutMark cs)

/-- The first file under the path with a suffix, and its format. -/
def suffixed? (l : Loader) (s : Surroundings) (path : FilePath) : Option (Format × List Char) :=
  l.formats.findSome? fun format => format.suffixes.findSome? fun suffix =>
    (s.file? (path.withSuffix suffix)).map fun text => (format, text)

/-- The settings file of a path and its format; what is found under a path without the suffix of a
format is refused. -/
def find? (l : Loader) (s : Surroundings) (path : FilePath) :
    Except SettingsError (Option (Format × List Char)) :=
  match if path.isFolder then none else s.file? path.text with
  | some text =>
    match l.formats.find? path.isOfFormat with
    | some format => .ok (some (format, text))
    | none => .error .unreadable
  | none => .ok (l.suffixed? s path)

/-- The entries of the file that is named, which has to be there, or else of the default file. -/
def fileEntries (l : Loader) (s : Surroundings) (path : Option String) :
    Except SettingsError Entries := do
  let found ← match FilePath.parse? (path.getD defaultFile).toList with
    | some p => l.find? s p
    | none => pure none
  match found.map fun (format, text) => l.read format text with
  | some (some entries) => return entries
  | some none => throw .unreadable
  | none => if path.isSome then throw .unreadable else return []

end Loader

/-! ### All layers -/

def limitsName : Name := ['l', 'i', 'm', 'i', 't', 's']

def emptyPeriodsName : Name :=
  ['m', 'a', 'x', '_', 'e', 'm', 'p', 't', 'y', '_', 'p', 'e', 'r', 'i', 'o', 'd', 's']

def occurrencesName : Name :=
  ['m', 'a', 'x', '_', 'o', 'c', 'c', 'u', 'r', 'r', 'e', 'n', 'c', 'e', 's']

def loggingName : Name := ['l', 'o', 'g', 'g', 'i', 'n', 'g']

def levelName : Name := ['l', 'e', 'v', 'e', 'l']

def defaults : Entries :=
  [(limitsName, .table [(emptyPeriodsName, .integer 100000), (occurrencesName, .integer 730)]),
    (loggingName, .table [(levelName, .text ['i', 'n', 'f', 'o'])])]

def ofTree? (tree : Value) : Option Settings := do
  let [limits, logging] ← tree.fields? [limitsName, loggingName] | none
  let [emptyPeriods, occurrences] ← limits.fields? [emptyPeriodsName, occurrencesName] | none
  let [level] ← logging.fields? [levelName] | none
  let maxEmptyPeriods ← emptyPeriods.natural?
  if 4294967295 < maxEmptyPeriods then
    none
  let maxOccurrences ← occurrences.natural?
  let level ← level.text?
  return { maxEmptyPeriods, maxOccurrences, level := String.ofList level }

namespace Loader

/-- The tree of the entries of a settings file. -/
def fileTree (l : Loader) (entries : Entries) : Value :=
  (Value.table []).putLayer (l.order .file entries)

/-- The file with the variables over it. -/
def tree (l : Loader) (s : Surroundings) (entries : Entries) : Value :=
  (l.fileTree entries).putLayer (l.order .environment (variableEntries s.environment))

/-- The file and the variables, put over the defaults together. -/
def fullTree (l : Loader) (s : Surroundings) (entries : Entries) : Value :=
  (Value.table defaults).putLayer (l.order .joined (l.tree s entries).entries)

def load (l : Loader) (s : Surroundings) (path : Option String) :
    Except SettingsError Settings := do
  let entries ← l.fileEntries s path
  match ofTree? (l.fullTree s entries) with
  | some settings => settings.check
  | none => throw .unreadable

end Loader

def load (s : Surroundings) (path : Option String) : Except SettingsError Settings :=
  Loader.plain.load s path

/-- The limits of an expansion; the number of occurrences is always limited. -/
def limits (s : Settings) : Limits := ⟨s.maxEmptyPeriods, some s.maxOccurrences⟩

end Recurrence.Settings
