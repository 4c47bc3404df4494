import PatternAutomata.CommandLine.Outcome
import PatternAutomata.Proofs.Compilation

/-!
# Words from arguments, files and the standard input

The words of a run are those that are given as arguments and then the lines of its files; the standard input counts only if
neither words nor files are named. A line is what stands in front of a line ending, of whichever kind, and no other
character ends one. So it does not matter where words that hold none of them come from.

* `Written` — a text that holds words as its lines;
* `HeldIn`, `Supplied` — how words reach the program;
* `fileLines_of_written`, `allWords_of_supplied` — these words are found again;
* `execute_of_supplied` — the outcome depends on the words only.
-/

namespace PatternAutomata.CommandLine

open Text

/-! ### Words that are written as lines -/

/-- The text holds the words as its lines: a line ending of one kind stands behind each of them, or behind each but the last
one, unless that is empty. -/
inductive Written : List Text → Text → Prop
  | terminated (ending : LineEnding) (words : List Text) : Written words (ending.write words)
  | unterminated (ending : LineEnding) (words : List Text) {last : Text} (h : last ≠ []) :
      Written (words ++ [last]) (ending.write words ++ last)

/-- The words can be told from line endings. -/
def Plain (words : List Text) : Prop := ∀ word ∈ words, '\n' ∉ word ∧ '\r' ∉ word

instance (words : List Text) : Decidable (Plain words) :=
  List.decidableBAll (fun word => '\n' ∉ word ∧ '\r' ∉ word) words

section Written

variable {words : List Text} {content : Text}

theorem Plain.unbroken (h : Plain words) : ∀ word ∈ words, Unbroken (fun _ => false) word := by
  rintro word hword c hc (rfl | rfl | hextra)
  · exact (h word hword).1 hc
  · exact (h word hword).2 hc
  · exact Bool.false_ne_true hextra

theorem fileLines_of_written (hwritten : Written words content) (hplain : Plain words) : fileLines content = words := by
  have hunbroken := hplain.unbroken
  cases hwritten with
  | terminated ending words =>
    have hlines : linesWith (fun _ => false) (ending.write words ++ []) = words ++ linesWith (fun _ => false) [] :=
      LineEnding.linesWith_write_append hunbroken fun _ hhead => nomatch hhead
    rw [List.append_nil, linesWith, List.append_nil] at hlines
    exact hlines
  | @unterminated ending words last hne =>
    rw [List.forall_mem_append, List.forall_mem_singleton] at hunbroken
    obtain ⟨hwords, hlast⟩ := hunbroken
    have hhead : last.head? ≠ some '\n' := fun hhead => hlast _ (List.mem_of_head? hhead) (Or.inl rfl)
    rw [fileLines, LineEnding.linesWith_write_append hwords fun _ => hhead, linesWith_eq_singleton hlast hne]

end Written

/-! ### Words that reach the program -/

/-- The files of these names hold the words as their lines, in order. There may be names without a file. -/
inductive HeldIn (file? : Text → Option Text) : List Text → List Text → Prop
  | nil : HeldIn file? [] []
  | missing {name : Text} {names words : List Text} (h : file? name = none) :
      HeldIn file? names words → HeldIn file? (name :: names) words
  | file {name content : Text} {names part words : List Text} (h : file? name = some content)
      (hpart : Written part content) : HeldIn file? names words → HeldIn file? (name :: names) (part ++ words)

/-- The words reach the program: the first of them as arguments and the others in files, or all on the standard input. -/
inductive Supplied (arguments : Arguments) (inputs : Inputs) : List Text → Prop
  | named {words : List Text} (h : arguments.words ≠ [] ∨ arguments.files ≠ [])
      (hfiles : HeldIn inputs.file? arguments.files words) : Supplied arguments inputs (arguments.words ++ words)
  | stdin {words : List Text} (hwords : arguments.words = []) (hfiles : arguments.files = [])
      (h : Written words inputs.stdin) : Supplied arguments inputs words

/-- The same arguments with other words and files. -/
def Arguments.withSources (arguments : Arguments) (words files : List Text) : Arguments :=
  { arguments with words, files }

section Supplied

variable {arguments : Arguments} {inputs : Inputs} {words : List Text}

theorem flatMap_fileLines_of_heldIn {file? : Text → Option Text} {names : List Text} (h : HeldIn file? names words)
    (hplain : Plain words) : (names.filterMap file?).flatMap fileLines = words := by
  induction h with
  | nil => rfl
  | missing hname _ ih => rw [List.filterMap_cons_none hname, ih hplain]
  | file hname hpart _ ih =>
    obtain ⟨hplainPart, hplain⟩ := List.forall_mem_append.mp hplain
    rw [List.filterMap_cons_some hname, List.flatMap_cons, fileLines_of_written hpart hplainPart, ih hplain]

theorem readsStdin_eq_false_iff : arguments.readsStdin = false ↔ arguments.words ≠ [] ∨ arguments.files ≠ [] := by
  rw [Arguments.readsStdin, Bool.and_eq_false_iff]
  simp

/-- **The words that are supplied are tested.** -/
theorem allWords_of_supplied (h : Supplied arguments inputs words) (hplain : Plain words) :
    arguments.allWords inputs = words := by
  cases h with
  | named hnamed hfiles =>
    have hrest := flatMap_fileLines_of_heldIn hfiles (List.forall_mem_append.mp hplain).2
    rw [Arguments.allWords, readsStdin_eq_false_iff.mpr hnamed, hrest]
    exact List.append_nil _
  | stdin hwords hfiles hwritten =>
    rw [Arguments.allWords, Arguments.readsStdin, hwords, hfiles]
    exact fileLines_of_written hwritten hplain

/-- The outcome depends on the words that are tested, not on their source. -/
theorem execute_of_allWords {words files words' files' : List Text} {inputs' : Inputs}
    (h : (arguments.withSources words files).allWords inputs = (arguments.withSources words' files').allWords inputs') :
    execute (arguments.withSources words files) inputs = execute (arguments.withSources words' files') inputs' := by
  unfold execute
  rw [h]
  rfl

theorem allWords_stdin (h : arguments.words ≠ [] ∨ arguments.files ≠ []) (stdin : Text) :
    arguments.allWords { inputs with stdin } = arguments.allWords inputs := by
  rw [Arguments.allWords, Arguments.allWords, readsStdin_eq_false_iff.mpr h]
  rfl

end Supplied

/-- **Words come to the same from everywhere.** However words without line endings are supplied, as arguments, in files or on
the standard input, they are the words that are tested, and the outcome is the same. If words or files are named, the
standard input does not matter. -/
theorem execute_of_supplied (arguments : Arguments) :
    (∀ (tested : List Text), Plain tested → ∀ (words files words' files' : List Text) (inputs inputs' : Inputs),
        Supplied (arguments.withSources words files) inputs tested →
        Supplied (arguments.withSources words' files') inputs' tested →
        (arguments.withSources words files).allWords inputs = tested ∧
          execute (arguments.withSources words files) inputs = execute (arguments.withSources words' files') inputs') ∧
      ∀ (inputs : Inputs) (stdin : Text), arguments.words ≠ [] ∨ arguments.files ≠ [] →
        execute arguments { inputs with stdin } = execute arguments inputs := by
  constructor
  · intro tested hplain words files words' files' inputs inputs' hsupplied hsupplied'
    have htested := allWords_of_supplied hsupplied hplain
    exact ⟨htested, execute_of_allWords (htested.trans (allWords_of_supplied hsupplied' hplain).symm)⟩
  · intro inputs stdin hnamed
    show execute (arguments.withSources arguments.words arguments.files) { inputs with stdin } =
      execute (arguments.withSources arguments.words arguments.files) inputs
    exact execute_of_allWords (allWords_stdin hnamed stdin)

/-- Of four words one is empty and one is a line separator. The first is an argument, two stand in a file behind one another
and the last, without a line ending, in another; or all stand on the standard input, with other line endings. -/
theorem execute_of_supplied_separator :
    let arguments : Arguments := { pattern := ['a'], steps := true }
    let tested : List Text := [['a'], [], ['\u2028'], ['b']]
    let named := arguments.withSources [['a']] [['x'], ['z'], ['y']]
    let files : Inputs :=
      { file? := fun name =>
          if name = ['x'] then some ['\r', '\n', '\u2028', '\r', '\n'] else if name = ['y'] then some ['b'] else none }
    let unnamed := arguments.withSources [] []
    let input : Inputs := { file? := fun _ => none, stdin := ['a', '\r', '\r', '\u2028', '\r', 'b'] }
    Plain tested ∧ Supplied named files tested ∧ Supplied unnamed input tested ∧
      execute named files = execute unnamed input ∧
      (named.words ≠ [] ∨ named.files ≠ []) ∧ ∀ stdin, execute named { files with stdin } = execute named files := by
  intro arguments tested named files unnamed input
  have hplain : Plain tested := by decide
  have hnamed : named.words ≠ [] ∨ named.files ≠ [] := Or.inl (List.cons_ne_nil _ _)
  have hfirst : Written [[], ['\u2028']] ['\r', '\n', '\u2028', '\r', '\n'] := .terminated .crlf [[], ['\u2028']]
  have hsecond : Written [['b']] ['b'] := .unterminated .lf [] (List.cons_ne_nil 'b' [])
  have hx : files.file? ['x'] = some ['\r', '\n', '\u2028', '\r', '\n'] := rfl
  have hz : files.file? ['z'] = none := rfl
  have hy : files.file? ['y'] = some ['b'] := rfl
  have hheld : HeldIn files.file? [['x'], ['z'], ['y']] [[], ['\u2028'], ['b']] :=
    .file hx hfirst (.missing hz (.file hy hsecond .nil))
  have hfiles : Supplied named files tested := .named hnamed hheld
  have hinput : Supplied unnamed input tested :=
    .stdin rfl rfl (.unterminated .cr [['a'], [], ['\u2028']] (List.cons_ne_nil 'b' []))
  have hsame := ((execute_of_supplied arguments).1 tested hplain _ _ _ _ files input hfiles hinput).2
  exact ⟨hplain, hfiles, hinput, hsame, hnamed, fun stdin => (execute_of_supplied named).2 files stdin hnamed⟩

end PatternAutomata.CommandLine
