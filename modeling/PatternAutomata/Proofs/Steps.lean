import PatternAutomata.Automaton.Simulation

/-!
# Reading step by step

* `Automaton.drop_stepsFrom_append` — the reports on the rest of a word do not depend on how the active states came about;
* `Automaton.steps_eq_map_simulate` — reading step by step reports what simulating the parts of the word does;
* `Automaton.stepsFrom_nil` — where no state is active, none becomes active again;
* `Run.next?_after`, `Run.next?_after_of_lt` — what a run reports next, by the number of reports that it gave before.

The last two say of a paused run what it must have kept: the states that are active after the part of the word that it has
read, and the rest of the word (`Run.after`).
-/

namespace PatternAutomata

theorem Arena.closure_nil (arena : Arena) : arena.closure [] = [] := by
  simp [closure, Search.layers, Search.layersBy, Search.visit, Search.layersFrom]

namespace Automaton

variable (A : Automaton)

theorem stepsFrom_cons (active : List Nat) (c : Symbol) (w : Word) :
    A.stepsFrom active (c :: w) = A.report active :: A.stepsFrom (A.advance active c) w := rfl

/-- Behind the reports on the beginning of a word, its rest is read from the states that are active then. -/
theorem drop_stepsFrom_append (active : List Nat) (u v : Word) :
    (A.stepsFrom active (u ++ v)).drop u.length = A.stepsFrom (u.foldl A.advance active) v := by
  induction u generalizing active with
  | nil => rfl
  | cons c u ih =>
    rw [List.cons_append, stepsFrom_cons, List.length_cons, List.drop_succ_cons, List.foldl_cons]
    exact ih (A.advance active c)

/-- There is a report for every part of the word in front, on the states that are active after reading it. -/
theorem stepsFrom_eq_map (active : List Nat) (w : Word) :
    A.stepsFrom active w = (List.range (w.length + 1)).map fun i => A.report ((w.take i).foldl A.advance active) := by
  induction w generalizing active with
  | nil => rfl
  | cons c w ih =>
    rw [stepsFrom_cons, ih, List.length_cons, List.range_succ_eq_map (n := w.length + 1), List.map_cons, List.map_map]
    rfl

theorem steps_eq_map_simulate (w : Word) :
    A.steps w = (List.range (w.length + 1)).map fun i => A.simulate (w.take i) :=
  A.stepsFrom_eq_map A.start w

/-! ### No active state -/

theorem advance_nil (c : Symbol) : A.advance [] c = [] := Arena.closure_nil A.arena

theorem foldl_advance_nil (w : Word) : w.foldl A.advance [] = [] := by
  induction w with
  | nil => rfl
  | cons c w ih => rw [List.foldl_cons, advance_nil, ih]

/-- Where no state is active, every further report is empty, whatever is read. -/
theorem stepsFrom_nil (w : Word) : A.stepsFrom [] w = List.replicate (w.length + 1) ⟨[], false⟩ := by
  induction w with
  | nil => rfl
  | cons c w ih =>
    rw [stepsFrom_cons, advance_nil, ih]
    rfl

end Automaton

namespace Run

/-- A run on a word that has given some reports. -/
def after (A : Automaton) (word : Word) : Nat → Run
  | 0 => waiting word
  | given + 1 => paused ((word.take given).foldl A.advance A.start) (word.drop given)

variable {A : Automaton} {word : Word} {given : Nat}

/-- As long as there is something to report, the next report is that of simulating the part of the word that is read. -/
theorem next?_after (h : given ≤ word.length) :
    (after A word given).next? A = some (A.simulate (word.take given), after A word (given + 1)) := by
  cases given with
  | zero => rfl
  | succ given =>
    have hlt : given < word.length := h
    -- the rest of the word begins with the symbol that the longer part ends with
    have hrest : word.drop given = word[given] :: word.drop (given + 1) := List.drop_eq_getElem_cons hlt
    have hread : A.advance ((word.take given).foldl A.advance A.start) word[given] =
        (word.take (given + 1)).foldl A.advance A.start := by
      rw [List.take_succ_eq_append_getElem hlt, List.foldl_append]
      rfl
    simp only [after, hrest, next?, hread]
    rfl

/-- A run that has reported on the whole word has nothing more to report. -/
theorem next?_after_of_lt (h : word.length < given) : (after A word given).next? A = none := by
  obtain ⟨given, rfl⟩ := Nat.exists_eq_add_one_of_ne_zero (Nat.ne_zero_of_lt h)
  have hrest : word.drop given = [] := List.drop_eq_nil_of_le (Nat.le_of_lt_succ h)
  simp only [after, hrest, next?]

/-- Asking a run that is exhausted does not change it. -/
theorem after_succ_of_lt (h : word.length < given) : after A word (given + 1) = after A word given := by
  obtain ⟨given, rfl⟩ := Nat.exists_eq_add_one_of_ne_zero (Nat.ne_zero_of_lt h)
  have hle : word.length ≤ given := Nat.le_of_lt_succ h
  simp only [after, List.take_of_length_le hle, List.take_of_length_le (Nat.le_of_lt h), List.drop_eq_nil_of_le hle,
    List.drop_eq_nil_of_le (Nat.le_of_lt h)]

end Run
end PatternAutomata
