import Recurrence.Text.Split

/-!
# Paths of settings files

The parts of a path stand between slashes; empty parts and single points change nothing. The suffix
of a name tells the format of a settings file. A file is looked for under its path and, if it is not
there, under its path with the suffix of a format.
-/

namespace Recurrence.Settings

set_option autoImplicit false

open Text

inductive Format
  | toml | json | yaml | ini | ron | json5 | corn
deriving DecidableEq, Repr

namespace Format

def all : List Format := [toml, json, yaml, ini, ron, json5, corn]

def suffixes : Format → List String
  | toml => [".toml"]
  | json => [".json"]
  | yaml => [".yaml", ".yml"]
  | ini => [".ini"]
  | ron => [".ron"]
  | json5 => [".json5"]
  | corn => [".corn"]

end Format

structure FilePath where
  absolute : Bool
  /-- The parts before the last one. -/
  folders : List (List Char)
  name : List Char
  /-- Whether the path says that it leads to a folder. -/
  isFolder : Bool
deriving DecidableEq

namespace FilePath

def isIdle (part : List Char) : Bool := part = [] || part = ['.']

def parse? (cs : List Char) : Option FilePath := do
  let parts := splitOn '/' cs
  let named := parts.filter fun part => !isIdle part
  let name ← named.getLast?
  if name = ['.', '.'] then
    none
  return {
    absolute := cs.head? = some '/'
    folders := named.dropLast
    name
    isFolder := parts.getLast?.any isIdle }

/-- The path in its shortest form. -/
def text (p : FilePath) : String :=
  String.ofList
    ((if p.absolute then ['/'] else []) ++ ['/'].intercalate (p.folders ++ [p.name]))

/-- Whether the name ends with the suffix and is more than that. -/
def hasSuffix (p : FilePath) (suffix : String) : Bool :=
  p.name.length > suffix.length && suffix.toList.isSuffixOf p.name

def withSuffix (p : FilePath) (suffix : String) : String := p.text ++ suffix

def isOfFormat (p : FilePath) (format : Format) : Bool := format.suffixes.any p.hasSuffix

end FilePath

end Recurrence.Settings
