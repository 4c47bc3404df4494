import PatternAutomata.Automaton.Basic

/-!
# Layers and transitions

The layer of a state is its distance from the initial state along edges of any symbol; states that cannot be reached have
none. Transitions are listed by the layer of their source, inside a layer by its identifier, and otherwise in the order
of its successor table.
-/

namespace PatternAutomata

structure Transition where
  source : Nat
  symbol : Symbol
  target : Nat
deriving DecidableEq, Repr

namespace Arena

/-- The edges that leave a state, with their source. -/
def transitionsFrom (arena : Arena) (q : Nat) : List Transition :=
  (arena.edges q).map fun (symbol, target) => ⟨q, symbol, target⟩

end Arena

namespace Automaton

/-- The states by their distance from the initial one, each layer in the order of discovery. -/
def layers (A : Automaton) : List (List Nat) := Search.layers A.arena.targets A.size [A.initial]

/-- The reachable states in the order of discovery, each with its distance from the initial one. -/
def depths (A : Automaton) : List (Nat × Nat) :=
  A.layers.zipIdx.flatMap fun (layer, depth) => layer.map fun q => (q, depth)

/-- The edges that leave a reachable state. -/
def transitions (A : Automaton) : List Transition :=
  A.layers.flatMap fun layer => (layer.mergeSort (· ≤ ·)).flatMap A.arena.transitionsFrom

end Automaton
end PatternAutomata
