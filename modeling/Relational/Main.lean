import Relational.CommandLine.Execution

/-!
# The program

Reads the variables and files that a command names, and prints what the command answers.
-/
namespace Relational.CommandLine

def readFile (path : String) : IO (Option (String × String)) :=
  try return some (path, ← IO.FS.readFile path) catch _ => return none

def readVariable (name : String) : IO (Option (String × String)) := do
  return (← IO.getEnv name).map (name, ·)

def run (args : List String) : IO UInt32 := do
  let known ← (configVariable :: Config.variableNames).filterMapM readVariable
  let command := Command.ofArguments (known.lookup configVariable) args
  let files ← (command.toOption.elim [] Command.files).filterMapM readFile
  let result := outcome ⟨(known.lookup ·), (files.lookup ·)⟩ command
  IO.print result.output
  IO.eprint result.complaint
  return result.exitCode.toUInt32

end Relational.CommandLine

def main (args : List String) : IO UInt32 := Relational.CommandLine.run args
