import Octet.CommandLine.Run

/-!
# The command

Reads the files that the arguments name, runs, and prints.
-/

namespace Octet

/-- The text of a file, if there is one. -/
def readText (name : String) : IO (Option String) := do
  try
    return some (← IO.FS.readFile name)
  catch _ =>
    return none

/-- The files that the arguments name. -/
def readFiles (arguments : List String) : IO CommandLine.Files := do
  match CommandLine.Arguments.read arguments with
  | .error _ => return fun _ => none
  | .ok a =>
    let source ← readText a.file
    let config ← match a.config with
      | some name => readText name
      | none => pure none
    return fun name => if name = a.file then source else config

end Octet

/-- Runs the command line. -/
def main (arguments : List String) : IO UInt32 := do
  let files ← Octet.readFiles arguments
  match Octet.CommandLine.run files arguments with
  | some outcome =>
    IO.print outcome.output
    if let some complaint := outcome.complaint then
      IO.eprintln complaint.message
    return outcome.code.toUInt32
  | none => return 1
