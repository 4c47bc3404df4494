import PatternAutomata.CommandLine.Switch
import PatternAutomata.Text.Quoted

/-!
# Usage errors

Why a command line cannot be understood, and what is said about it.
-/

namespace PatternAutomata.CommandLine

/-- The name under which the program speaks. -/
def program : Text := "thompson".toList

/-- The cause of a refused command line. -/
inductive UsageError
  /-- An abbreviated option that several names begin with. -/
  | ambiguous (argument : Text) (candidates : List Switch)
  | missingValue (switch : Switch)
  | unwantedValue (switch : Switch) (value : Text)
  | missingPattern
  | unrecognized (arguments : List Text)
deriving DecidableEq, Repr

namespace UsageError

def message : UsageError → Text
  | ambiguous argument candidates =>
    "ambiguous option: ".toList ++ argument ++ " could match ".toList ++
      Text.commaSeparated (candidates.map Switch.long)
  | missingValue switch => "argument ".toList ++ switch.title ++ ": expected one argument".toList
  | unwantedValue switch value =>
    "argument ".toList ++ switch.title ++ ": ignored explicit argument ".toList ++ value.quoted
  | missingPattern => "the following arguments are required: regexp, strings".toList
  | unrecognized arguments => "unrecognized arguments: ".toList ++ [' '].intercalate arguments

end UsageError

def usage : List Text :=
  ["usage: thompson [-h] [-f FILES] [-a ALPHABET] [-q] [-s] [-v]".toList,
   "                regexp [strings ...]".toList]

/-- How the program is called and what the arguments mean. -/
def help : List Text :=
  usage ++
  [[],
   "positional arguments:".toList,
   "  regexp                Pattern to compile".toList,
   "  strings               Strings to test, read from stdin when none are given".toList,
   [],
   "options:".toList,
   "  -h, --help            show this help message and exit".toList,
   "  -f FILES, --file FILES".toList,
   "                        Test each line of the file".toList,
   "  -a ALPHABET, --alphabet ALPHABET".toList,
   "                        Reject patterns using other characters than these ones".toList,
   "  -q, --quiet           Don't output results, only set the exit status".toList,
   "  -s, --steps           Output the active states after each character".toList,
   "  -v, --verbose         Debug mode, print generated automaton".toList]

end PatternAutomata.CommandLine
