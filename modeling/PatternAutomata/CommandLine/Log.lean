import PatternAutomata.Compilation

/-!
# The log

In verbose mode a compilation is logged: how the pattern was read, unless its alphabet already refused it, and then how
many states were built or what went wrong.
-/

namespace PatternAutomata.CommandLine

/-- A line of the log, with the part of the program that it comes from. -/
def logLine (origin message : Text) : Text := "DEBUG:thompson.".toList ++ origin ++ ':' :: message

def readLine (pattern : Text) : Text :=
  logLine "automatons".toList
    ("pattern ".toList ++ pattern.quoted ++ " postfix ".toList ++ (textOf (Pattern.parse pattern)).quoted)

def builtLine (pattern : Text) (A : Automaton) : Text :=
  logLine "automatons".toList
    ("compiled ".toList ++ textOf (Pattern.parse pattern) ++ " into ".toList ++ Text.ofNat A.size ++ " states".toList)

def failedLine (failure : CompileFailure) : Text :=
  logLine "compile".toList
    ("cannot compile ".toList ++ failure.pattern.quoted ++ ": ".toList ++ failure.reason)

def compilationLog (pattern : Text) (alphabet : Option Alphabet) : List Text :=
  (match Pattern.checkAlphabet alphabet pattern with
    | .ok () => [readLine pattern]
    | .error _ => []) ++
  match compile pattern alphabet with
    | .ok A => [builtLine pattern A]
    | .error failure => [failedLine failure]

end PatternAutomata.CommandLine
