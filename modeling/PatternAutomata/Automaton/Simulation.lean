import PatternAutomata.Automaton.Basic

/-!
# Simulation

An automaton reads a word by keeping track of all states it may be in. Active states are listed in increasing order.
`simulate` reads a word at once, `steps` reports on every part of it from the empty one on, and a `Run` gives the same
reports one by one.
-/

namespace PatternAutomata

/-- The active states, and whether one of them is final. -/
structure Simulation where
  active : List Nat
  isMatch : Bool
deriving DecidableEq, Repr

namespace Automaton

def report (A : Automaton) (active : List Nat) : Simulation := ⟨active, active.any A.arena.isFinal⟩

/-- The states that are active before anything is read. -/
def start (A : Automaton) : List Nat := A.arena.closure [A.initial]

/-- The states that are active after a symbol is read. -/
def advance (A : Automaton) (active : List Nat) (symbol : Symbol) : List Nat :=
  A.arena.closure (active.flatMap fun q => A.arena.read q symbol)

def simulate (A : Automaton) (word : Word) : Simulation := A.report (word.foldl A.advance A.start)

def accepts (A : Automaton) (word : Word) : Bool := (A.simulate word).isMatch

def stepsFrom (A : Automaton) (active : List Nat) : Word → List Simulation
  | [] => [A.report active]
  | symbol :: rest => A.report active :: A.stepsFrom (A.advance active symbol) rest

/-- The reports on the empty word and after each symbol. -/
def steps (A : Automaton) (word : Word) : List Simulation := A.stepsFrom A.start word

end Automaton

/-- A simulation that is read report by report: not begun yet, or paused at the states of the latest report. It goes on
with what is left of the word, on the automaton that is there when the next report is asked for. -/
inductive Run
  | waiting (word : Word)
  | paused (active : List Nat) (rest : Word)
deriving DecidableEq, Repr

namespace Run

/-- The next report and the run after it, unless there is no report left. -/
def next? (A : Automaton) : Run → Option (Simulation × Run)
  | waiting word => some (A.report A.start, paused A.start word)
  | paused _ [] => none
  | paused active (symbol :: rest) =>
    let active := A.advance active symbol
    some (A.report active, paused active rest)

end Run
end PatternAutomata
