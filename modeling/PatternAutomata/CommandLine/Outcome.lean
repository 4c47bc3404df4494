import PatternAutomata.CommandLine.Log
import PatternAutomata.CommandLine.Report
import PatternAutomata.CommandLine.Request
import PatternAutomata.Text.Lines

/-!
# What the program does

The words to test are those of the command line, then the lines of the files; the standard input counts only if neither
words nor files are asked for. The status tells whether some word matched, whatever is printed.
-/

namespace PatternAutomata.CommandLine

/-- What the program can read: the content of a file, if there is one to be read, and the standard input. -/
structure Inputs where
  file? : Text → Option Text
  stdin : Text := []

/-- What the program leaves behind. -/
structure Outcome where
  status : Nat
  stdout : Text := []
  stderr : Text := []
deriving DecidableEq, Repr

namespace Arguments

def readsStdin (arguments : Arguments) : Bool := arguments.words.isEmpty && arguments.files.isEmpty

def allWords (arguments : Arguments) (inputs : Inputs) : List Text :=
  arguments.words ++ (arguments.files.filterMap inputs.file?).flatMap Text.fileLines ++
    if arguments.readsStdin then Text.fileLines inputs.stdin else []

def alphabet? (arguments : Arguments) : Option Alphabet := arguments.alphabet.map Alphabet.ofText

/-- The log, which is kept in verbose mode only. -/
def log (arguments : Arguments) : Text :=
  if arguments.verbose then Text.unlines (compilationLog arguments.pattern arguments.alphabet?) else []

def entries (arguments : Arguments) (A : Automaton) (words : List Text) : List Entry :=
  if arguments.quiet then [] else words.flatMap (wordEntries A arguments.steps)

end Arguments

def execute (arguments : Arguments) (inputs : Inputs) : Outcome :=
  match compile arguments.pattern arguments.alphabet? with
  | .error failure =>
    { status := 2, stderr := arguments.log ++ (program ++ ": ".toList ++ failure.reason).line }
  | .ok A =>
    let words := arguments.allWords inputs
    { status := if words.any fun word => A.accepts (Word.ofText word) then 0 else 1
      stdout := (if arguments.verbose then preamble arguments.pattern A else []) ++
        Text.unlines ((arguments.entries A words).map Entry.text)
      stderr := arguments.log }

def respond (request : Except UsageError Request) (inputs : Inputs) : Outcome :=
  match request with
  | .error e => { status := 2, stderr := Text.unlines (usage ++ [program ++ ": error: ".toList ++ e.message]) }
  | .ok .help => { status := 0, stdout := Text.unlines help }
  | .ok (.run arguments) => execute arguments inputs

end PatternAutomata.CommandLine
