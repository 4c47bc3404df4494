import PatternAutomata.CommandLine.Outcome

/-!
# The program

Reads the files and, if it counts, the standard input that a command line asks for, prints the outcome and exits with its
status.
-/

namespace PatternAutomata.CommandLine

/-- The content of a file, or nothing if there is no text to be read under that name. -/
def contentOf (name : Text) : IO (Option Text) := do
  try
    let content ← IO.FS.readFile (String.ofList name)
    return some content.toList
  catch _ => return none

/-- What the program can read on behalf of a request. -/
def gatherInputs (request : Except UsageError Request) : IO Inputs := do
  let .ok (.run arguments) := request | return { file? := fun _ => none }
  let contents ← arguments.files.mapM fun name => return (name, ← contentOf name)
  let stdin ← if arguments.readsStdin then (← IO.getStdin).readToEnd else pure ""
  return { file? := fun name => (contents.lookup name).join, stdin := stdin.toList }

end PatternAutomata.CommandLine

open PatternAutomata.CommandLine in
/-- Runs the program on the arguments of its command line. -/
def main (arguments : List String) : IO UInt32 := do
  let request := Request.ofTexts (arguments.map String.toList)
  let outcome := respond request (← gatherInputs request)
  IO.print (String.ofList outcome.stdout)
  IO.eprint (String.ofList outcome.stderr)
  return outcome.status.toUInt32
