import PatternAutomata.Automaton.Mesh

/-!
# Profiles

Everything that is shown of an automaton. States are shown by labels, which for an automaton of its own arena are their
identifiers.
-/

namespace PatternAutomata

/-- What is shown of a state. -/
structure StateProfile where
  label : Int
  isFinal : Bool
  form : Text
deriving DecidableEq, Repr

structure Profile where
  form : Text
  size : Nat
  initial : Int
  final : Int
  states : List StateProfile
  /-- The source, the symbol and the target of every edge. -/
  transitions : List (Int × Symbol × Int)
  /-- The reachable states in the order of discovery, each with its distance from the initial one. -/
  depths : List (Int × Nat)
  mesh : Text
deriving DecidableEq, Repr

namespace Automaton

def stateProfile (A : Automaton) (q : Nat) : StateProfile :=
  ⟨q, A.arena.isFinal q, Mesh.describeState (Text.ofNat q) (A.arena.state q)⟩

/-- What is shown of an automaton. -/
def profile (A : Automaton) : Profile where
  form := A.describe
  size := A.size
  initial := A.initial
  final := A.final
  states := (List.range A.size).map A.stateProfile
  transitions := A.transitions.map fun t => (t.source, t.symbol, t.target)
  depths := A.depths.map fun (q, depth) => (q, depth)
  mesh := A.mesh

end Automaton
end PatternAutomata
