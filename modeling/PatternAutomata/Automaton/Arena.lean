import PatternAutomata.Automaton.Search
import PatternAutomata.Automaton.Successors

/-!
# States and arenas

A state is a flag and a successor table. States live in an arena, where the position is the identifier; edges name their
target by it. `closure` adds to some states all that can be reached from them without reading.
-/

namespace PatternAutomata

structure State where
  isFinal : Bool := false
  successors : Successors := {}
deriving DecidableEq, Repr

abbrev Arena := Array State

namespace Arena

/-- The state with an identifier. There is no edge from an identifier outside the arena, and it is not final. -/
def state (arena : Arena) (q : Nat) : State := arena.getD q {}

def isFinal (arena : Arena) (q : Nat) : Bool := (arena.state q).isFinal

/-- The states that one edge with the symbol leads to. -/
def read (arena : Arena) (q : Nat) (symbol : Symbol) : List Nat := (arena.state q).successors.read symbol

/-- The states that one edge with the empty symbol leads to. -/
def epsilons (arena : Arena) (q : Nat) : List Nat := (arena.state q).successors.epsilons

def targets (arena : Arena) (q : Nat) : List Nat := (arena.state q).successors.targets

def edges (arena : Arena) (q : Nat) : List (Symbol × Nat) := (arena.state q).successors.edges

/-- Adds a state without edges. Its identifier is the size that the arena had. -/
def addState (arena : Arena) (isFinal : Bool := false) : Arena := arena.push { isFinal }

def addEdge (arena : Arena) (source : Nat) (symbol : Symbol) (target : Nat) : Arena :=
  arena.modify source fun s => { s with successors := s.successors.add symbol target }

def setFinal (arena : Arena) (q : Nat) (isFinal : Bool) : Arena :=
  arena.modify q fun s => { s with isFinal }

/-- The states that are reached from the given ones by edges with the empty symbol, in increasing order. -/
def closure (arena : Arena) (states : List Nat) : List Nat :=
  (Search.layers arena.epsilons arena.size states).flatten.mergeSort (· ≤ ·)

/-! ### What the operations do to states -/

theorem state_eq (arena : Arena) (q : Nat) : arena.state q = arena[q]?.getD {} := by simp [state]

@[simp] theorem size_addState (arena : Arena) (isFinal : Bool) : (arena.addState isFinal).size = arena.size + 1 := by
  simp [addState]

@[simp] theorem size_addEdge (arena : Arena) (source : Nat) (symbol : Symbol) (target : Nat) :
    (arena.addEdge source symbol target).size = arena.size := by
  simp [addEdge]

@[simp] theorem size_setFinal (arena : Arena) (q : Nat) (isFinal : Bool) :
    (arena.setFinal q isFinal).size = arena.size := by
  simp [setFinal]

theorem state_of_size_le {arena : Arena} {q : Nat} (h : arena.size ≤ q) : arena.state q = {} := by
  simp [state_eq, Array.getElem?_eq_none h]

/-- A new state has no edges and is not final, as an identifier outside the arena. -/
@[simp] theorem state_addState (arena : Arena) (q : Nat) : arena.addState.state q = arena.state q := by
  simp only [state_eq, addState, Array.getElem?_push]
  split
  next h => simp [h]
  next => rfl

theorem state_addEdge {arena : Arena} {source : Nat} (h : source < arena.size) (symbol : Symbol) (target q : Nat) :
    (arena.addEdge source symbol target).state q =
      if q = source then { arena.state q with successors := (arena.state q).successors.add symbol target }
      else arena.state q := by
  simp only [state_eq, addEdge, Array.getElem?_modify, eq_comm (a := q)]
  split
  next he => subst he; simp [Array.getElem?_eq_getElem h]
  next => rfl

theorem state_setFinal {arena : Arena} {state : Nat} (h : state < arena.size) (isFinal : Bool) (q : Nat) :
    (arena.setFinal state isFinal).state q =
      if q = state then { arena.state q with isFinal } else arena.state q := by
  simp only [state_eq, setFinal, Array.getElem?_modify, eq_comm (a := q)]
  split
  next he => subst he; simp [Array.getElem?_eq_getElem h]
  next => rfl

@[simp] theorem isFinal_addState (arena : Arena) (q : Nat) : arena.addState.isFinal q = arena.isFinal q := by
  simp [isFinal]

@[simp] theorem isFinal_addEdge (arena : Arena) (source : Nat) (symbol : Symbol) (target q : Nat) :
    (arena.addEdge source symbol target).isFinal q = arena.isFinal q := by
  simp only [isFinal, state_eq, addEdge, Array.getElem?_modify]
  split
  next => cases arena[q]? <;> rfl
  next => rfl

theorem isFinal_setFinal {arena : Arena} {state : Nat} (h : state < arena.size) (isFinal : Bool) (q : Nat) :
    (arena.setFinal state isFinal).isFinal q = if q = state then isFinal else arena.isFinal q := by
  simp only [Arena.isFinal, state_setFinal h]
  split <;> rfl

end Arena
end PatternAutomata
