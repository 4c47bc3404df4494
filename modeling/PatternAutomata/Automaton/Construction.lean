import PatternAutomata.Automaton.Basic
import PatternAutomata.CompileError

/-!
# Construction from postfix tokens

Every literal makes a fragment of two states, every operator joins the fragments of its operands by edges with the empty
symbol. A fragment is left through its end only, which has no edge yet, and entered through its start only; the
operators keep this, so what is joined later does not disturb what is inside.
-/

namespace PatternAutomata

/-- The entry and the exit of a part under construction. -/
structure Fragment where
  start : Nat
  stop : Nat
deriving DecidableEq, Repr

/-- The states made so far, and the fragments that wait for an operator, the latest first. -/
structure Construction where
  arena : Arena := #[]
  pending : List Fragment := []
deriving DecidableEq, Repr

namespace Construction

/-- Two new states with an edge between them. -/
def literal (symbol : Symbol) : Construction → Construction
  | ⟨arena, pending⟩ =>
    let start := arena.size
    ⟨arena.addState.addState.addEdge start symbol (start + 1), ⟨start, start + 1⟩ :: pending⟩

def concat (arena : Arena) (first second : Fragment) : Arena × Fragment :=
  (arena.addEdge first.stop Symbol.epsilon second.start, ⟨first.start, second.stop⟩)

/-- Two new states with both fragments between them. -/
def alternate (arena : Arena) (first second : Fragment) : Arena × Fragment :=
  let start := arena.size
  let stop := start + 1
  (arena.addState.addState
      |>.addEdge start Symbol.epsilon first.start
      |>.addEdge start Symbol.epsilon second.start
      |>.addEdge first.stop Symbol.epsilon stop
      |>.addEdge second.stop Symbol.epsilon stop,
    ⟨start, stop⟩)

/-- Two new states with the fragment between them, which may be left out or run again. -/
def star (arena : Arena) (inner : Fragment) : Arena × Fragment :=
  let start := arena.size
  let stop := start + 1
  (arena.addState.addState
      |>.addEdge start Symbol.epsilon inner.start
      |>.addEdge start Symbol.epsilon stop
      |>.addEdge inner.stop Symbol.epsilon inner.start
      |>.addEdge inner.stop Symbol.epsilon stop,
    ⟨start, stop⟩)

/-- Joins the latest fragments by an operator, if there are enough. -/
def join? (o : Operator) : Construction → Option Construction
  | ⟨arena, pending⟩ =>
    match o, pending with
    | .star, inner :: rest =>
      let (arena, joined) := star arena inner
      some ⟨arena, joined :: rest⟩
    | .concat, second :: first :: rest =>
      let (arena, joined) := concat arena first second
      some ⟨arena, joined :: rest⟩
    | .alternate, second :: first :: rest =>
      let (arena, joined) := alternate arena first second
      some ⟨arena, joined :: rest⟩
    | _, _ => none

/-- Takes one token, which stands at `index` of the list with text `source`. -/
def step (source : Text) (k : Construction) : Token × Nat → Except CompileError Construction
  | (.literal symbol, _) => .ok (k.literal symbol)
  | (.operator o, index) =>
    match k.join? o with
    | some k => .ok k
    | none => .error (.operandUnderflow o source index)
  | (.foreign value, index) => .error (.unexpectedSymbol value source index)

def run (tokens : List Token) : Except CompileError Construction :=
  tokens.zipIdx.foldlM (step (textOf tokens)) {}

end Construction

namespace Automaton

def ofPostfix (tokens : List Token) : Except CompileError Automaton :=
  if tokens.isEmpty then .error .emptyPattern
  else match Construction.run tokens with
    | .error e => .error e
    | .ok ⟨arena, [whole]⟩ => .ok ⟨arena.setFinal whole.stop true, whole.start, whole.stop⟩
    | .ok ⟨_, pending⟩ => .error (.operandOverflow pending.length (textOf tokens) (tokens.length - 1))

end Automaton
end PatternAutomata
