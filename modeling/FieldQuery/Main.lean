import FieldQuery.Command.Run

/-!
# The program

Reads the files that the command line names and the variables that settings know, and writes what
the command yields.
-/

namespace FieldQuery

/-- The content of a file, if it can be read. -/
def readFile? (path : String) : IO (Option String) := do
  try
    return some (← IO.FS.readFile path)
  catch _ => return none

/-- The values that are there, by name. -/
def gather (names : List String) (find : String → IO (Option String)) :
    IO (List (String × String)) := do
  let found ← names.mapM fun name => return (name, ← find name)
  return found.filterMap fun (name, value) => value.map fun v => (name, v)

end FieldQuery

open FieldQuery in
/-- Runs the command of a command line. -/
def main (args : List String) : IO UInt32 := do
  let line := CommandLine.read args
  let files ← gather line.paths readFile?
  let values ← gather Settings.variableNames fun name => IO.getEnv name
  let output := line.perform (fun path => List.lookup path files)
    (fun name => List.lookup name values)
  IO.print output.stdout
  return UInt32.ofNat output.exit
