import PatternAutomata.Automaton.Mesh
import PatternAutomata.Automaton.Simulation
import PatternAutomata.Pattern.Postfix

/-!
# Reports on words

For every word there is a line with the result, and with steps a line for every part of the word in front of it, the empty
part first. In verbose mode the postfix form of the pattern and the mesh of the automaton come before all words.
-/

namespace PatternAutomata.CommandLine

/-- A line of a report: the active states after a part of a word, or the result for a whole word. -/
inductive Entry
  | step (part : Text) (active : List Nat)
  | result (word : Text) (simulation : Simulation)
deriving DecidableEq, Repr

def stateSet (states : List Nat) : Text := '{' :: Text.commaSeparated (states.map Text.ofNat) ++ ['}']

/-- The line of an entry; tabs separate its columns. -/
def Entry.text : Entry → Text
  | step part active => part ++ '\t' :: stateSet active
  | result word ⟨active, isMatch⟩ =>
    word ++ '\t' :: (if isMatch then "match" else "nomatch").toList ++ '\t' :: stateSet active

def stepEntries (A : Automaton) (word : Text) : List Entry :=
  (A.steps (Word.ofText word)).zipIdx.map fun (report, length) => .step (word.take length) report.active

def resultEntry (A : Automaton) (word : Text) : Entry := .result word (A.simulate (Word.ofText word))

def wordEntries (A : Automaton) (steps : Bool) (word : Text) : List Entry :=
  (if steps then stepEntries A word else []) ++ [resultEntry A word]

/-- What is printed before the words in verbose mode. An empty line ends it. -/
def preamble (pattern : Text) (A : Automaton) : Text := (textOf (Pattern.parse pattern)).line ++ A.mesh ++ ['\n']

end PatternAutomata.CommandLine
