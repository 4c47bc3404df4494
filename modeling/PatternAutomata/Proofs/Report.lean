import PatternAutomata.CommandLine.Outcome
import PatternAutomata.Proofs.Compilation
import PatternAutomata.Proofs.Simulation
import PatternAutomata.Proofs.Steps

/-!
# Flags change what is printed, not the verdict

Three flags decide what a run prints: nothing about the words, lines for the parts of a word as well, and the pattern and
the automaton before all words. The words are tested in any case, so the status does not depend on the flags, and neither
does the line of a result. The lines of the parts of a word come from reading it step by step and the line of its result
from simulating it at once, but they show the same states.

* `resultLine`, `partLines` — the lines of a word, spelled out;
* `map_text_wordEntries` — these are the lines that are printed for it;
* `execute_verdict` — what a run comes to under any flags.
-/

namespace PatternAutomata.CommandLine

/-! ### The lines of a word -/

/-- The states that are active after a text, between braces and commas. -/
def activeSet (A : Automaton) (text : Text) : Text :=
  ['{'] ++ [',', ' '].intercalate ((A.simulate (Word.ofText text)).active.map Text.ofNat) ++ ['}']

/-- The line of a result: the word, the verdict and the active states, between tabs. -/
def resultLine (A : Automaton) (word : Text) : Text :=
  word ++ ['\t'] ++ (if (A.simulate (Word.ofText word)).isMatch then "match" else "nomatch").toList ++ ['\t'] ++
    activeSet A word

/-- The lines of the parts of a word, from the empty one to the whole word: the part and the active states, between tabs. -/
def partLines (A : Automaton) (word : Text) : List Text :=
  (List.range (word.length + 1)).map fun i => word.take i ++ ['\t'] ++ activeSet A (word.take i)

section Lines

variable (A : Automaton) (word : Text)

theorem length_partLines : (partLines A word).length = word.length + 1 := by
  rw [partLines, List.length_map, List.length_range]

theorem getElem?_partLines {i : Nat} (h : i ≤ word.length) :
    (partLines A word)[i]? = some (word.take i ++ ['\t'] ++ activeSet A (word.take i)) := by
  rw [partLines, List.getElem?_map, List.getElem?_range (Nat.lt_succ_of_le h), Option.map_some]

/-- The last of the lines shows the whole word. -/
theorem getLast?_partLines : (partLines A word).getLast? = some (word ++ ['\t'] ++ activeSet A word) := by
  rw [List.getLast?_eq_getElem?, length_partLines, Nat.add_sub_cancel, getElem?_partLines A word (Nat.le_refl _),
    List.take_length]

theorem text_resultEntry : (resultEntry A word).text = resultLine A word := by
  simp [resultEntry, Entry.text, resultLine, activeSet, stateSet, Text.commaSeparated]

/-- Reading a word step by step shows the states that simulating its parts does. -/
theorem map_text_stepEntries : (stepEntries A word).map Entry.text = partLines A word := by
  have hlength : (Word.ofText word).length = word.length := List.length_map _
  have htake : ∀ i, (Word.ofText word).take i = Word.ofText (word.take i) := fun i => List.map_take.symm
  rw [stepEntries, A.steps_eq_map_simulate, hlength, partLines]
  apply List.ext_getElem
  · simp
  · intro i _ _
    simp [Entry.text, activeSet, stateSet, Text.commaSeparated, htake]

theorem map_text_wordEntries (steps : Bool) :
    (wordEntries A steps word).map Entry.text = (if steps then partLines A word else []) ++ [resultLine A word] := by
  rw [wordEntries, List.map_append, List.map_singleton, text_resultEntry]
  cases steps with
  | true => rw [if_pos rfl, if_pos rfl, map_text_stepEntries]
  | false => rfl

end Lines

/-! ### Flags -/

/-- The same arguments with other flags. -/
def Arguments.withFlags (arguments : Arguments) (quiet steps verbose : Bool) : Arguments :=
  { arguments with quiet, steps, verbose }

section Flags

variable {arguments : Arguments} {inputs : Inputs} {A : Automaton}

theorem execute_of_error {failure : CompileFailure}
    (h : compile arguments.pattern arguments.alphabet? = .error failure) :
    (execute arguments inputs).status = 2 ∧ (execute arguments inputs).stdout = [] := by
  rw [execute, h]
  exact ⟨rfl, rfl⟩

theorem status_execute (arguments : Arguments) (h : compile arguments.pattern arguments.alphabet? = .ok A) :
    (execute arguments inputs).status =
      if ∃ word ∈ arguments.allWords inputs, A.accepts (Word.ofText word) = true then 0 else 1 := by
  rw [execute, h]
  simp only [List.any_eq_true]

theorem stdout_execute (arguments : Arguments) (h : compile arguments.pattern arguments.alphabet? = .ok A) :
    (execute arguments inputs).stdout = (if arguments.verbose then preamble arguments.pattern A else []) ++
      Text.unlines ((arguments.entries A (arguments.allWords inputs)).map Entry.text) := by
  rw [execute, h]

/-- The lines that are printed for the words, if any: those of each word, the one of its result last. -/
theorem map_text_entries (hquiet : arguments.quiet = false) (words : List Text) :
    (arguments.entries A words).map Entry.text = words.flatMap fun word =>
      (if arguments.steps then partLines A word else []) ++ [resultLine A word] := by
  rw [Arguments.entries, hquiet, if_neg Bool.false_ne_true, List.map_flatMap]
  exact List.flatMap_congr fun word _ => map_text_wordEntries A word arguments.steps

end Flags

/-- **What a run comes to under any flags.** If the pattern does not compile, the status tells so and nothing is printed.
Otherwise the status tells whether some word is accepted. Unless the run is quiet there is a block of lines for every word,
in order: the line of its result, which does not depend on the flags, and in front of it, with steps, the lines of its
parts. There are as many of these as parts of the word from the empty one to the whole word; each shows the states that
simulating the part comes to, so the last one shows those of the result. A quiet run prints what comes before all words, if
it is verbose, and nothing else. -/
theorem execute_verdict (arguments : Arguments) (inputs : Inputs) :
    (∀ failure, compile arguments.pattern arguments.alphabet? = .error failure → ∀ quiet steps verbose,
        (execute (arguments.withFlags quiet steps verbose) inputs).status = 2 ∧
          (execute (arguments.withFlags quiet steps verbose) inputs).stdout = []) ∧
      ∀ A, compile arguments.pattern arguments.alphabet? = .ok A →
        (∀ quiet steps verbose,
          ((execute (arguments.withFlags quiet steps verbose) inputs).status = 0 ↔
            ∃ word ∈ arguments.allWords inputs, A.accepts (Word.ofText word) = true) ∧
          ((execute (arguments.withFlags quiet steps verbose) inputs).status = 1 ↔
            ∀ word ∈ arguments.allWords inputs, A.accepts (Word.ofText word) = false)) ∧
        (∀ steps verbose, ∃ blocks : List (List Text × Text),
          (execute (arguments.withFlags false steps verbose) inputs).stdout =
            (if verbose then preamble arguments.pattern A else []) ++
              Text.unlines (blocks.flatMap fun (parts, result) => parts ++ [result]) ∧
          blocks.map Prod.snd = (arguments.allWords inputs).map (resultLine A) ∧
          blocks.map Prod.fst =
            (arguments.allWords inputs).map fun word => if steps then partLines A word else []) ∧
        (∀ word, (partLines A word).length = word.length + 1 ∧
          (∀ i ≤ word.length,
            (partLines A word)[i]? = some (word.take i ++ ['\t'] ++ activeSet A (word.take i))) ∧
          (partLines A word).getLast? = some (word ++ ['\t'] ++ activeSet A word) ∧
          (A.simulate (Word.ofText word)).active.Pairwise (· < ·)) ∧
        ∀ steps verbose, (execute (arguments.withFlags true steps verbose) inputs).stdout =
          if verbose then preamble arguments.pattern A else [] := by
  refine ⟨fun failure hfailure quiet steps verbose => execute_of_error hfailure, fun A hok => ⟨?_, ?_, ?_, ?_⟩⟩
  · intro quiet steps verbose
    have hstatus : (execute (arguments.withFlags quiet steps verbose) inputs).status =
        if ∃ word ∈ arguments.allWords inputs, A.accepts (Word.ofText word) = true then 0 else 1 :=
      status_execute (arguments.withFlags quiet steps verbose) hok
    have hnone : (∀ word ∈ arguments.allWords inputs, A.accepts (Word.ofText word) = false) ↔
        ¬ ∃ word ∈ arguments.allWords inputs, A.accepts (Word.ofText word) = true := by simp
    rw [hstatus, hnone]
    split
    next haccepts => exact ⟨iff_of_true rfl haccepts, iff_of_false Nat.zero_ne_one (not_not_intro haccepts)⟩
    next hrejects => exact ⟨iff_of_false Nat.one_ne_zero hrejects, iff_of_true rfl hrejects⟩
  · intro steps verbose
    refine ⟨(arguments.allWords inputs).map fun word => (if steps then partLines A word else [], resultLine A word),
      ?_, ?_, ?_⟩
    · rw [stdout_execute (arguments.withFlags false steps verbose) hok, map_text_entries rfl, List.flatMap_map]
      rfl
    · rw [List.map_map]
      rfl
    · rw [List.map_map]
      rfl
  · intro word
    exact ⟨length_partLines A word, fun i => getElem?_partLines A word, getLast?_partLines A word,
      Automaton.foldl_advance_sorted (Word.ofText word)⟩
  · intro steps verbose
    rw [stdout_execute (arguments.withFlags true steps verbose) hok]
    exact List.append_nil _

/-- The pattern `ab` accepts one of the words `ab` and `a`, under any flags; the pattern `*` does not compile. -/
theorem execute_verdict_flags :
    let arguments : Arguments := { pattern := ['a', 'b'], words := [['a', 'b'], ['a']] }
    let malformed : Arguments := { pattern := ['*'], words := [['a']] }
    let inputs : Inputs := { file? := fun _ => none }
    (∃ A, compile arguments.pattern arguments.alphabet? = .ok A ∧ (partLines A ['a', 'b']).length = 3) ∧
      (∀ quiet steps verbose, (execute (arguments.withFlags quiet steps verbose) inputs).status = 0) ∧
      (∀ steps, (execute (arguments.withFlags true steps false) inputs).stdout = []) ∧
      (∃ failure, compile malformed.pattern malformed.alphabet? = .error failure) ∧
      ∀ quiet steps verbose, (execute (malformed.withFlags quiet steps verbose) inputs).status = 2 := by
  intro arguments malformed inputs
  let e := Expr.concat (.literal ['a']) (.literal ['b'])
  have hpattern : Automaton.ofPattern arguments.pattern arguments.alphabet? = .ok e.automaton :=
    Automaton.ofPostfix_postorder e
  have hok : compile arguments.pattern arguments.alphabet? = .ok e.automaton := by rw [compile, hpattern]
  have hfailure : compile malformed.pattern malformed.alphabet? = .error ⟨['*'], .operandUnderflow .star ['*'] 0⟩ := by
    decide
  have hlanguage : Word.ofText ['a', 'b'] ∈ e.language := Language.mem_mul.mpr ⟨[['a']], rfl, [['b']], rfl, rfl⟩
  have haccepts : e.automaton.accepts (Word.ofText ['a', 'b']) = true :=
    (e.accepts_automaton_iff (Word.epsilon_notMem_ofText _)).mpr hlanguage
  obtain ⟨hstatus, -, hparts, hquiet⟩ := (execute_verdict arguments inputs).2 e.automaton hok
  have hmem : ['a', 'b'] ∈ arguments.allWords inputs := by decide
  refine ⟨⟨e.automaton, hok, (hparts ['a', 'b']).1⟩, fun quiet steps verbose => ?_, fun steps => hquiet steps false,
    ⟨_, hfailure⟩, fun quiet steps verbose => ?_⟩
  · exact (hstatus quiet steps verbose).1.mpr ⟨_, hmem, haccepts⟩
  · exact ((execute_verdict malformed inputs).1 _ hfailure quiet steps verbose).1

end PatternAutomata.CommandLine
