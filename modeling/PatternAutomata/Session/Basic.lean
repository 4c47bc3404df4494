import PatternAutomata.Compilation
import PatternAutomata.Session.Machine

/-!
# Sessions

A session gives names to machines, runs and free states, and carries out commands on them one after another. A name can
be given again; what it meant before is then out of reach by name, but edges and assemblies keep it. A run keeps the
machine that it was begun on.
-/

namespace PatternAutomata

inductive Source
  | tokens (tokens : List Token)
  | pattern (pattern : Text) (alphabet : Option Alphabet)
deriving DecidableEq, Repr

def Source.compile : Source → Except CompileError Automaton
  | tokens ts => Automaton.ofPostfix ts
  | pattern p alphabet => Automaton.ofPattern p alphabet

abbrev Name := Text

/-- Named things, the latest first. -/
abbrev Table (α : Type) := List (Name × α)

inductive Command
  | compile (name : Name) (source : Source)
  | newState (name : Name) (label : Int) (isFinal : Bool)
  | addEdge (source : Name) (symbol : Symbol) (target : Name)
  | setFinal (state : Name) (isFinal : Bool)
  | read (state : Name) (symbol : Symbol)
  | epsilons (state : Name)
  | print (state : Name)
  | closure (states : List Name)
  | assemble (name : Name) (states : List Name) (initial final : Name)
  | inspect (automaton : Name)
  | begin (run : Name) (automaton : Name) (word : Word)
  | next (run : Name)
  | simulate (automaton : Name) (word : Word)
  | accepts (automaton : Name) (word : Word)
  | closureOf (automaton : Name) (positions : List Int)
  | readFrom (automaton : Name) (position : Int) (symbol : Symbol)
deriving DecidableEq, Repr

inductive Answer
  | done
  | text (text : Text)
  | verdict (isMatch : Bool)
  | labels (labels : List Int)
  | successors (labels : List Int) (description : Text)
  | closed (closure given : List Int)
  | simulation (active : List Int) (isMatch : Bool)
  | exhausted
  | profile (profile : Profile)
  | failure (error : CompileError)
  | unknown
deriving DecidableEq, Repr

/-- Labels in increasing order. -/
def sortedLabels (label : Nat → Int) (states : List Nat) : List Int := (states.map label).mergeSort (· ≤ ·)

/-- The answer to a simulation, where labels that several active states share are given once. -/
def Answer.ofSimulation (label : Nat → Int) (s : Simulation) : Answer :=
  simulation (sortedLabels label s.active).eraseReps s.isMatch

structure Session where
  machines : Table Machine := []
  runs : Table (Machine × Run) := []
  states : Table Nat := []
  workspace : Workspace := {}
deriving DecidableEq, Repr

namespace Session

def machine? (s : Session) (name : Name) : Option Machine := s.machines.lookup name
def run? (s : Session) (name : Name) : Option (Machine × Run) := s.runs.lookup name
def state? (s : Session) (name : Name) : Option Nat := s.states.lookup name

def bindMachine (s : Session) (name : Name) (m : Machine) : Session := { s with machines := (name, m) :: s.machines }

def bindRun (s : Session) (name : Name) (m : Machine) (run : Run) : Session :=
  { s with runs := (name, m, run) :: s.runs }

def bindState (s : Session) (name : Name) (handle : Nat) : Session := { s with states := (name, handle) :: s.states }

/-- Carries out a command, unless a name or a position in it means nothing. -/
def exec? (s : Session) : Command → Option (Session × Answer)
  | .compile name source =>
    match source.compile with
    | .ok A => some (s.bindMachine name (.compiled A), .text A.describe)
    | .error e => some (s, .failure e)
  | .newState name label isFinal =>
    let workspace := s.workspace.addState label isFinal
    some ({ s.bindState name s.workspace.size with workspace }, .text (Text.ofInt label).parenthesized)
  | .addEdge source symbol target => do
    let source ← s.state? source
    let target ← s.state? target
    let workspace := s.workspace.addEdge source symbol target
    some ({ s with workspace }, .text (workspace.describe source))
  | .setFinal state isFinal => do
    let state ← s.state? state
    some ({ s with workspace := s.workspace.setFinal state isFinal }, .done)
  | .read state symbol => do
    let state ← s.state? state
    some (s, .successors ((s.workspace.arena.read state symbol).map s.workspace.label) (s.workspace.describe state))
  | .epsilons state => do
    let state ← s.state? state
    some (s, .labels ((s.workspace.arena.epsilons state).map s.workspace.label))
  | .print state => do
    let state ← s.state? state
    some (s, .text (Text.unlines (s.workspace.edgeLines state)))
  | .closure states => do
    let states ← states.mapM s.state?
    some (s, .labels (sortedLabels s.workspace.label (s.workspace.arena.closure states)))
  | .assemble name states initial final => do
    let own ← states.mapM s.state?
    let initial ← s.state? initial
    let final ← s.state? final
    let a : Assembly := ⟨own, initial, final⟩
    some (s.bindMachine name (.assembled a), .text (a.describe s.workspace))
  | .inspect automaton => do
    let m ← s.machine? automaton
    some (s, .profile (m.profile s.workspace))
  | .begin run automaton word => do
    let m ← s.machine? automaton
    some (s.bindRun run m (.waiting word), .done)
  | .next name => do
    let (m, run) ← s.run? name
    match run.next? (m.automaton s.workspace) with
    | none => some (s, .exhausted)
    | some (report, run) => some (s.bindRun name m run, .ofSimulation (m.label s.workspace) report)
  | .simulate automaton word => do
    let m ← s.machine? automaton
    some (s, .ofSimulation (m.label s.workspace) ((m.automaton s.workspace).simulate word))
  | .accepts automaton word => do
    let m ← s.machine? automaton
    some (s, .verdict ((m.automaton s.workspace).accepts word))
  | .closureOf automaton positions => do
    let m ← s.machine? automaton
    let states ← positions.mapM m.at?
    let closure := (m.automaton s.workspace).arena.closure states
    some (s, .closed (sortedLabels (m.label s.workspace) closure) (sortedLabels (m.label s.workspace) states.eraseDups))
  | .readFrom automaton position symbol => do
    let m ← s.machine? automaton
    let state ← m.at? position
    some (s, .labels (((m.automaton s.workspace).arena.read state symbol).map (m.label s.workspace)))

/-- Carries out a command; one that means nothing changes nothing. -/
def exec (s : Session) (command : Command) : Session × Answer := (s.exec? command).getD (s, .unknown)

/-- The answers to some commands, in order. -/
def answers (s : Session) : List Command → List Answer
  | [] => []
  | command :: rest =>
    let (s, answer) := s.exec command
    answer :: s.answers rest

end Session
end PatternAutomata
