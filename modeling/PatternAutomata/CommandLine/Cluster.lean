import PatternAutomata.CommandLine.UsageError

/-!
# Clusters of options

One argument may hold several options: letters behind one dash, each a flag, until a letter needs a value or the
argument ends. A value may be glued to the option that needs it, behind a name with an equals sign, behind the first
letter with or without one, behind a later letter without one.
-/

namespace PatternAutomata.CommandLine

/-- The separator between options and what is plain whatever it looks like. -/
def separator : Text := ['-', '-']

/-- How the options of an argument end. -/
inductive Ending
  | flag
  /-- With an option that needs a value, which is not in the argument. -/
  | needsValue (switch : Switch)
  | value (switch : Switch) (value : Text)
  /-- Not at all: none of the options counts. -/
  | refused (error : UsageError)
deriving DecidableEq, Repr

structure Cluster where
  flags : List Switch
  ending : Ending
deriving DecidableEq, Repr

namespace Cluster

/-- An option that nothing is glued to. -/
def bare (switch : Switch) : Cluster := if switch.takesValue then ⟨[], .needsValue switch⟩ else ⟨[switch], .flag⟩

/-- An option with the value that is glued to it. The separator is no value and leaves an empty one. -/
def withValue (switch : Switch) (value : Text) : Cluster :=
  ⟨[], .value switch (if value = separator then [] else value)⟩

def withUnwanted (switch : Switch) (value : Text) : Cluster := ⟨[], .refused (.unwantedValue switch value)⟩

def assigned (switch : Switch) (value : Text) : Cluster :=
  if switch.takesValue then withValue switch value else withUnwanted switch value

/-- An option and the text glued to its letter: its value if it needs one, else the letters of more options. -/
def ofLetters (switch : Switch) : Text → Cluster
  | [] => bare switch
  | c :: rest =>
    if switch.takesValue then withValue switch (c :: rest)
    else match Switch.ofLetter? c with
      | none => withUnwanted switch (c :: rest)
      | some following =>
        let cluster := ofLetters following rest
        { cluster with flags := switch :: cluster.flags }

/-- An option given by the first letter of an argument, where an equals sign may stand in front of what is glued to it. -/
def ofLetter (switch : Switch) : Text → Cluster
  | ['='] => assigned switch []
  | '=' :: glued => ofLetters switch glued
  | glued => ofLetters switch glued

def ofName (switch : Switch) : Option Text → Cluster
  | none => bare switch
  | some value => assigned switch value

end Cluster
end PatternAutomata.CommandLine
