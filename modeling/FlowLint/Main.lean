import FlowLint.CommandLine

/-!
# The program

Checks snapshots of C and C++ programs: format strings, unreachable code, and addresses of local variables that escape.
-/

namespace FlowLint.CommandLine

/-- The name of the program. -/
def programName : String := "flowlint"

/-- The contents of a file, if it can be read. -/
def contentsOf (path : String) : IO (Option String) := do
  try
    return some (← IO.FS.readFile path)
  catch _ =>
    return none

/-- Runs the command that the arguments give. -/
def perform (args : List String) : IO UInt32 := do
  match Command.ofArguments args with
  | .error .nothing =>
    IO.eprint (helpText programName none)
    return 2
  | .error .misuse =>
    IO.eprintln "error: the arguments are not understood"
    return 2
  | .ok command =>
    let files ← command.files.mapM fun path => do return (path, ← contentsOf path)
    let exit := command.exit programName fun path => (files.lookup path).join
    IO.print exit.output
    if let some message := exit.error then
      IO.eprintln ("error: " ++ message)
    return exit.code.toUInt32

end FlowLint.CommandLine

/-- The program. -/
def main (args : List String) : IO UInt32 := FlowLint.CommandLine.perform args
