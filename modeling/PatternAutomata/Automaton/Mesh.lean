import PatternAutomata.Automaton.Transition
import PatternAutomata.Text.Lines

/-!
# Mesh

The printed form of states, edges and whole automatons. An edge to a final state ends in an arrow. The mesh lists the
edges state by state and moves the lines that end in an arrow behind the others; a symbol that ends a line breaks the
line of its edge before that.
-/

namespace PatternAutomata

namespace Text

def parenthesized (text : Text) : Text := '(' :: text ++ [')']

end Text

namespace Mesh

/-- The mark of an edge to a final state. -/
def arrow : Text := ['-', '-', '>']

/-- The form of an edge between labelled states. -/
def edge (source : Text) (symbol : Symbol) (target : Text) (isFinal : Bool) : Text :=
  source.parenthesized ++ ' ' :: symbol.display ++ ' ' :: target.parenthesized ++ if isFinal then ' ' :: arrow else []

/-- The form of a state with a label: the symbols that leave it. -/
def describeState (label : Text) (state : State) : Text :=
  "<State ".toList ++ label ++ ' ' :: (Text.commaSeparated (state.successors.symbols.map Symbol.display)).parenthesized ++
    ['>']

/-- The edges that leave a state of an arena, where `label` tells how states are labelled. -/
def edgesFrom (label : Nat → Text) (arena : Arena) (q : Nat) : List Text :=
  (arena.edges q).map fun (symbol, target) => edge (label q) symbol (label target) (arena.isFinal target)

/-- The first line of a mesh, which points to the initial state. -/
def header (initial : Text) : Text :=
  List.replicate initial.parenthesized.length ' ' ++ ' ' :: arrow ++ ' ' :: initial.parenthesized

def lines (initial : Text) (edges : List Text) : List Text :=
  let (ends, others) := (Text.unlines edges).printedLines.partition fun line => arrow.isSuffixOf line
  header initial :: others ++ ends

/-- The form of an automaton: its size and initial state. -/
def describe (size : Nat) (initial : Text) : Text :=
  "<NFA ".toList ++ Text.ofNat size ++ " states on ".toList ++ initial.parenthesized ++ ['>']

end Mesh

namespace Automaton

/-- The form of an automaton: its size and initial state. -/
def describe (A : Automaton) : Text := Mesh.describe A.size (Text.ofNat A.initial)

/-- The edges of all reachable states, in the order of their discovery. -/
def meshEdges (A : Automaton) : List Text := A.layers.flatten.flatMap (Mesh.edgesFrom Text.ofNat A.arena)

def mesh (A : Automaton) : Text := Text.unlines (Mesh.lines (Text.ofNat A.initial) A.meshEdges)

end Automaton
end PatternAutomata
