import PatternAutomata.Automaton.Construction
import PatternAutomata.Pattern.Alphabet
import PatternAutomata.Pattern.Postfix

/-!
# Compiling patterns

A pattern is checked against its alphabet, if it has one, put into postfix order, and built.
-/

namespace PatternAutomata

def Automaton.ofPattern (pattern : Text) (alphabet : Option Alphabet := none) : Except CompileError Automaton :=
  match Pattern.checkAlphabet alphabet pattern with
  | .error e => .error e
  | .ok () => Automaton.ofPostfix (Pattern.parse pattern)

theorem Automaton.ofPattern_none {pattern : Text} : ofPattern pattern = ofPostfix (Pattern.parse pattern) := rfl

/-- A pattern that could not be compiled, and why. -/
structure CompileFailure where
  pattern : Text
  error : CompileError
deriving DecidableEq, Repr

/-- Why the pattern could not be compiled, in words. -/
def CompileFailure.reason (failure : CompileFailure) : Text := failure.error.message

/-- The automaton of a pattern, or the pattern with what is wrong. -/
def compile (pattern : Text) (alphabet : Option Alphabet := none) : Except CompileFailure Automaton :=
  match Automaton.ofPattern pattern alphabet with
  | .ok A => .ok A
  | .error e => .error ⟨pattern, e⟩

/-- Whether a result passes for a success: an automaton does by having states, a failure never does. -/
def isSuccess : Except CompileFailure Automaton → Bool
  | .ok A => A.size != 0
  | .error _ => false

end PatternAutomata
