import PatternAutomata.Automaton.Mesh

/-!
# Workspace

States that are made one by one. Each has a handle, its position in the arena, and a label of free choice, by which it is
shown; several states may have the same label.
-/

namespace PatternAutomata

/-- Free states and their labels, by handle. -/
structure Workspace where
  labels : Array Int := #[]
  arena : Arena := #[]
deriving DecidableEq, Repr

namespace Workspace

/-- The handle of the next state. -/
def size (ws : Workspace) : Nat := ws.arena.size

def label (ws : Workspace) (handle : Nat) : Int := ws.labels.getD handle 0

def labelText (ws : Workspace) (handle : Nat) : Text := Text.ofInt (ws.label handle)

/-- The first state with the label of a given one. -/
def firstAlike (ws : Workspace) (handle : Nat) : Nat := ws.labels.idxOf (ws.label handle)

def addState (ws : Workspace) (label : Int) (isFinal : Bool) : Workspace :=
  ⟨ws.labels.push label, ws.arena.addState isFinal⟩

def addEdge (ws : Workspace) (source : Nat) (symbol : Symbol) (target : Nat) : Workspace :=
  { ws with arena := ws.arena.addEdge source symbol target }

def setFinal (ws : Workspace) (handle : Nat) (isFinal : Bool) : Workspace :=
  { ws with arena := ws.arena.setFinal handle isFinal }

/-- The form of a state: its label and the symbols that leave it. -/
def describe (ws : Workspace) (handle : Nat) : Text :=
  Mesh.describeState (ws.labelText handle) (ws.arena.state handle)

/-- The edges that leave a state, one a line. -/
def edgeLines (ws : Workspace) (handle : Nat) : List Text := Mesh.edgesFrom ws.labelText ws.arena handle

end Workspace
end PatternAutomata
