import Recurrence.CommandLine

/-!
# The program
-/

namespace Recurrence

set_option autoImplicit false

open Settings

/-- The paths of the files that a command may read, in a folder so deep. -/
def filePaths (arguments : List String) (depth : Nat) : List String :=
  let dotenv := (List.range (depth + 1)).map Surroundings.dotenvPath
  let path := ((Command.parse? arguments).bind Command.settingsFile).getD defaultFile
  match FilePath.parse? path.toList with
  | none => dotenv
  | some p => dotenv ++ p.text :: (Format.all.flatMap Format.suffixes).map p.withSuffix

def readFiles (paths : List String) : IO (List (String × String)) :=
  paths.filterMapM fun (path : String) => do
    try
      return some (path, ← IO.FS.readFile path)
    catch _ =>
      return none

/-- The variables of the environment, each of which is followed by a null. -/
def readVariables : IO (List Dotenv.Variable) := do
  let text ← IO.FS.readFile "/proc/self/environ"
  return (Text.splitOn '\x00' text.toList).filterMap fun entry =>
    (Text.cut? '=' entry).map fun (name, value) => ⟨name, value⟩

/-- The number of folders around the working one. -/
def workingDepth : IO Nat := do
  let ⟨path⟩ ← IO.currentDir
  return path.toList.count '/'

/-- The input is read only if the command asks for it. -/
def readInput (arguments : List String) : IO String := do
  match Command.parse? arguments with
  | some command => if command.rule = "-" then (← IO.getStdin).readToEnd else return ""
  | none => return ""

end Recurrence

open Recurrence in
def main (arguments : List String) : IO UInt32 := do
  let files ← readFiles (filePaths arguments (← workingDepth))
  let outcome := run arguments ⟨files, ← readVariables⟩ (← readInput arguments)
  IO.print outcome.output
  return outcome.status.toUInt32
