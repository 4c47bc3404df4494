import PatternAutomata.Automaton.Simulation
import PatternAutomata.Session.Assembly

/-!
# Machines

What can be simulated in a session: a compiled automaton, which has its own arena and never changes, or an assembly of
free states, which changes with them. States of the former are labelled by their identifiers.
-/

namespace PatternAutomata

/-- A compiled or an assembled automaton. -/
inductive Machine
  | compiled (A : Automaton)
  | assembled (a : Assembly)
deriving DecidableEq, Repr

namespace Machine

/-- The automaton as it is now. -/
def automaton (ws : Workspace) : Machine → Automaton
  | compiled A => A
  | assembled a => a.automaton ws

def label (ws : Workspace) : Machine → Nat → Int
  | compiled _, q => q
  | assembled _, q => ws.label q

def at? : Machine → Int → Option Nat
  | compiled A, position => placeOf? A.size position
  | assembled a, position => a.at? position

def describe (ws : Workspace) : Machine → Text
  | compiled A => A.describe
  | assembled a => a.describe ws

def profile (ws : Workspace) : Machine → Profile
  | compiled A => A.profile
  | assembled a => a.profile ws

end Machine
end PatternAutomata
