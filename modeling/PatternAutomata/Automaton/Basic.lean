import PatternAutomata.Automaton.Arena

/-!
# Automatons

An arena with an initial and a final state. Simulation goes by the flags of the states; the final state is the one that
construction flags.
-/

namespace PatternAutomata

/-- A nondeterministic automaton whose edges may carry the empty symbol. -/
structure Automaton where
  arena : Arena
  initial : Nat
  final : Nat
deriving DecidableEq, Repr

namespace Automaton

def size (A : Automaton) : Nat := A.arena.size

end Automaton
end PatternAutomata
