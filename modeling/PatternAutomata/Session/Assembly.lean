import PatternAutomata.Automaton.Profile
import PatternAutomata.Session.Workspace

/-!
# Assemblies

An automaton put together from free states. Some of them are its own, and are found by position; the initial and the
final state and those that edges lead to need not be. A simulation goes wherever edges lead. What is shown of an assembly
goes by labels: states with the same label count as one, and the edges of a reached state are those of the own state at
the position that its label names.
-/

namespace PatternAutomata

/-- The handles of the own states, and of the initial and the final one. -/
structure Assembly where
  own : List Nat
  initial : Nat
  final : Nat
deriving DecidableEq, Repr

/-- The place in a list of a given length that a position names; negative positions count from the end. -/
def placeOf? (length : Nat) (position : Int) : Option Nat :=
  let place := if position < 0 then position + length else position
  if 0 ≤ place ∧ place < length then some place.toNat else none

namespace Assembly

def automaton (ws : Workspace) (a : Assembly) : Automaton := ⟨ws.arena, a.initial, a.final⟩

def at? (a : Assembly) (position : Int) : Option Nat := (placeOf? a.own.length position).bind fun place => a.own[place]?

/-- The form of an assembly: the number of own states and the initial state. -/
def describe (ws : Workspace) (a : Assembly) : Text := Mesh.describe a.own.length (ws.labelText a.initial)

/-- The states by their distance from the initial one, one for each label. -/
def layers (ws : Workspace) (a : Assembly) : List (List Nat) :=
  Search.layersBy ws.firstAlike ws.arena.targets ws.size [a.initial]

/-- The edges that leave the own state that a label names. -/
def transitionsFrom (ws : Workspace) (a : Assembly) (label : Int) : List (Int × Symbol × Int) :=
  match a.at? label with
  | none => []
  | some q => (ws.arena.edges q).map fun (symbol, target) => (label, symbol, ws.label target)

/-- The edges that leave the reached states, by layer and inside a layer by label. -/
def transitions (ws : Workspace) (a : Assembly) : List (Int × Symbol × Int) :=
  (a.layers ws).flatMap fun layer => ((layer.map ws.label).mergeSort (· ≤ ·)).flatMap (a.transitionsFrom ws)

def mesh (ws : Workspace) (a : Assembly) : Text :=
  let sources := (a.layers ws).flatten.filterMap fun q => a.at? (ws.label q)
  Text.unlines (Mesh.lines (ws.labelText a.initial) (sources.flatMap ws.edgeLines))

def profile (ws : Workspace) (a : Assembly) : Profile where
  form := a.describe ws
  size := a.own.length
  initial := ws.label a.initial
  final := ws.label a.final
  states := a.own.map fun q => ⟨ws.label q, ws.arena.isFinal q, ws.describe q⟩
  transitions := a.transitions ws
  depths := (a.layers ws).zipIdx.flatMap fun (layer, depth) => layer.map fun q => (ws.label q, depth)
  mesh := a.mesh ws

end Assembly
end PatternAutomata
