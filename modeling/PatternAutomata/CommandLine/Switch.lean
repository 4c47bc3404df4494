import PatternAutomata.Text.Basic

/-!
# Options of the command line

Every option has a letter, to be given after one dash, and a name, to be given after two.
-/

namespace PatternAutomata.CommandLine

inductive Switch
  | help
  | file
  | alphabet
  | quiet
  | steps
  | verbose
deriving DecidableEq, Repr

namespace Switch

/-- All options, in the order in which they are described. -/
def all : List Switch := [help, file, alphabet, quiet, steps, verbose]

def letter : Switch → Char
  | help => 'h'
  | file => 'f'
  | alphabet => 'a'
  | quiet => 'q'
  | steps => 's'
  | verbose => 'v'

def name : Switch → Text
  | help => "help".toList
  | file => "file".toList
  | alphabet => "alphabet".toList
  | quiet => "quiet".toList
  | steps => "steps".toList
  | verbose => "verbose".toList

/-- Whether the option needs a value. -/
def takesValue : Switch → Bool
  | file => true
  | alphabet => true
  | _ => false

/-- The option with its letter, as it is given. -/
def short (switch : Switch) : Text := ['-', switch.letter]

/-- The option with its name, as it is given. -/
def long (switch : Switch) : Text := '-' :: '-' :: switch.name

/-- Both forms, as messages show them. -/
def title (switch : Switch) : Text := switch.short ++ '/' :: switch.long

def ofLetter? (c : Char) : Option Switch := all.find? fun switch => switch.letter == c

end Switch
end PatternAutomata.CommandLine
