import PatternAutomata.CommandLine.Argument

/-!
# Reading a command line

Options and plain arguments may stand in any order, but the pattern and all words to test are taken from one unbroken run
of plain arguments: the first that has any. What is left over is refused in the end, after a missing pattern.
-/

namespace PatternAutomata.CommandLine

/-- What the program is asked to do with a pattern. -/
structure Arguments where
  pattern : Text
  words : List Text := []
  files : List Text := []
  alphabet : Option Text := none
  quiet : Bool := false
  steps : Bool := false
  verbose : Bool := false
deriving DecidableEq, Repr

inductive Request
  | help
  | run (arguments : Arguments)
deriving DecidableEq, Repr

structure Draft where
  operands : Option (Text × List Text) := none
  files : List Text := []
  alphabet : Option Text := none
  quiet : Bool := false
  steps : Bool := false
  verbose : Bool := false
  unrecognized : List Text := []
  wantsHelp : Bool := false
deriving DecidableEq, Repr

namespace Draft

/-- The pattern and the words in a run of plain arguments, where the separator may stand once in front of each. -/
def operandsOf? : List Text → Option (Text × List Text)
  | [] => none
  | first :: rest =>
    if first = separator then
      match rest with
      | [] => none
      | pattern :: words => some (pattern, words.erase separator)
    else
      let words := if rest.head? = some separator then rest.tail else rest
      some (first, words.erase separator)

def refuse (draft : Draft) (arguments : List Text) : Draft :=
  { draft with unrecognized := draft.unrecognized ++ arguments }

def takeRun (draft : Draft) (run : List Text) : Draft :=
  match draft.operands, operandsOf? run with
  | none, some operands => { draft with operands := some operands }
  | _, _ => draft.refuse run

def setFlag (draft : Draft) : Switch → Draft
  | .quiet => { draft with quiet := true }
  | .steps => { draft with steps := true }
  | .verbose => { draft with verbose := true }
  | .help => { draft with wantsHelp := true }
  | _ => draft

/-- Sets an option that needs a value. Files add up; of several alphabets the last one counts. -/
def setValue (draft : Draft) (switch : Switch) (value : Text) : Draft :=
  match switch with
  | .file => { draft with files := draft.files ++ [value] }
  | .alphabet => { draft with alphabet := some value }
  | _ => draft

def finish (draft : Draft) : Except UsageError Request :=
  match draft.operands with
  | none => .error .missingPattern
  | some (pattern, words) =>
    if draft.unrecognized = [] then
      .ok (.run { pattern, words, files := draft.files, alphabet := draft.alphabet, quiet := draft.quiet,
                  steps := draft.steps, verbose := draft.verbose })
    else .error (.unrecognized draft.unrecognized)

end Draft

/-- Reads the rest of a command line, where `run` is the run of plain arguments just in front of it. Once help is wanted
the rest does not matter. -/
def readFrom (draft : Draft) (run : List Text) (arguments : List Argument) : Except UsageError Request :=
  if draft.wantsHelp then .ok .help
  else match arguments with
    | [] => (draft.takeRun run).finish
    | .plain text :: rest => readFrom draft (run ++ [text]) rest
    | .separator :: rest => readFrom draft (run ++ [separator]) rest
    | .unknown text :: rest => readFrom ((draft.takeRun run).refuse [text]) [] rest
    | .options ⟨flags, ending⟩ :: rest =>
      let draft := flags.foldl Draft.setFlag (draft.takeRun run)
      match ending, rest with
      | .flag, rest => readFrom draft [] rest
      | .value switch value, rest => readFrom (draft.setValue switch value) [] rest
      | .needsValue switch, .plain value :: rest => readFrom (draft.setValue switch value) [] rest
      | .needsValue switch, _ => .error (.missingValue switch)
      | .refused error, _ => .error error

def Request.ofTexts (texts : List Text) : Except UsageError Request := do
  let arguments ← Argument.ofTexts texts
  readFrom {} [] arguments

end PatternAutomata.CommandLine
