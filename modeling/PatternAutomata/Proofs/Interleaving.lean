import PatternAutomata.Proofs.Steps
import PatternAutomata.Session.Basic

/-!
# Runs that take turns

In a session any number of runs can be under way, on the same automaton or on different ones, and other commands come in
between. As long as no state and no automaton is made or changed, each run reports what simulating the parts of its word
would, and every other command answers as if it were the first one (`Session.answers_interleaved`).

A command that only looks leaves the session as it is and does not depend on its runs (`Session.exec_of_looks`). The others
bind a run and change nothing else (`Session.exec_fst_cases`), so a run is moved on by asking for its next report only
(`Session.run?_exec`), and what it has come to is told by how often this was done (`Session.run?_after`).
-/

namespace PatternAutomata

namespace Command

/-- The command only looks at states and automatons. -/
def looks : Command → Bool
  | .read .. | .epsilons .. | .print .. | .closure .. | .inspect .. | .simulate .. | .accepts .. | .closureOf ..
  | .readFrom .. => true
  | _ => false

/-- The command neither makes nor changes a state or an automaton. -/
def keepsMachines : Command → Bool
  | .compile .. | .newState .. | .addEdge .. | .setFinal .. | .assemble .. => false
  | _ => true

/-- The command begins a run of that name. -/
def begins (name : Name) : Command → Bool
  | .begin run _ _ => run = name
  | _ => false

theorem cases_of_keepsMachines {c : Command} (h : c.keepsMachines = true) :
    c.looks = true ∨ (∃ run automaton word, c = .begin run automaton word) ∨ ∃ run, c = .next run := by
  cases c with
  | begin run automaton word => exact Or.inr (Or.inl ⟨run, automaton, word, rfl⟩)
  | next run => exact Or.inr (Or.inr ⟨run, rfl⟩)
  | compile | newState | addEdge | setFinal | assemble => cases h
  | _ => exact Or.inl rfl

end Command

namespace Session

/-- The session after some commands. -/
def after (s : Session) (commands : List Command) : Session := commands.foldl (fun s c => (s.exec c).1) s

variable {s : Session} {c : Command} {commands : List Command} {name automaton : Name} {word : Word} {m : Machine}

/-! ### Answers by position -/

theorem after_cons (s : Session) (c : Command) (rest : List Command) : s.after (c :: rest) = (s.exec c).1.after rest := rfl

theorem after_append (s : Session) (before rest : List Command) : s.after (before ++ rest) = (s.after before).after rest := by
  unfold after
  rw [List.foldl_append]

/-- The answer to a command is that of the session after the commands before it. -/
theorem getElem?_answers (s : Session) (before : List Command) (c : Command) (rest : List Command) :
    (s.answers (before ++ c :: rest))[before.length]? = some ((s.after before).exec c).2 := by
  induction before generalizing s with
  | nil => rfl
  | cons b before ih =>
    rw [List.cons_append, answers, List.length_cons, List.getElem?_cons_succ, ih, after_cons]

/-! ### Single commands -/

theorem state?_runs (runs : Table (Machine × Run)) : ({ s with runs } : Session).state? = s.state? := rfl

theorem machine?_runs (runs : Table (Machine × Run)) : ({ s with runs } : Session).machine? = s.machine? := rfl

/-- A command that only looks does not depend on the runs and does not change the session. -/
theorem exec_of_looks (s : Session) (runs : Table (Machine × Run)) (h : c.looks = true) :
    exec { s with runs } c = ({ s with runs }, (s.exec c).2) := by
  cases c <;> simp only [Command.looks, Bool.false_eq_true] at h <;>
    simp only [exec, exec?, state?_runs, machine?_runs, Option.bind_eq_bind]
  case read state symbol => cases s.state? state <;> rfl
  case epsilons state => cases s.state? state <;> rfl
  case print state => cases s.state? state <;> rfl
  case closure states => cases states.mapM s.state? <;> rfl
  case inspect automaton => cases s.machine? automaton <;> rfl
  case simulate automaton word => cases s.machine? automaton <;> rfl
  case accepts automaton word => cases s.machine? automaton <;> rfl
  case closureOf automaton positions =>
    cases s.machine? automaton with
    | none => rfl
    | some m =>
      rw [Option.bind_some, Option.bind_some]
      cases positions.mapM m.at? <;> rfl
  case readFrom automaton position symbol =>
    cases s.machine? automaton with
    | none => rfl
    | some m =>
      rw [Option.bind_some, Option.bind_some]
      cases m.at? position <;> rfl

theorem exec_begin (h : s.machine? automaton = some m) :
    s.exec (.begin name automaton word) = (s.bindRun name m (.waiting word), .done) := by
  simp only [exec, exec?, h]
  rfl

theorem exec_begin_of_none (h : s.machine? automaton = none) : s.exec (.begin name automaton word) = (s, .unknown) := by
  simp only [exec, exec?, h]
  rfl

theorem exec_next {run : Run} (h : s.run? name = some (m, run)) :
    s.exec (.next name) =
      match run.next? (m.automaton s.workspace) with
      | none => (s, .exhausted)
      | some (report, run) => (s.bindRun name m run, .ofSimulation (m.label s.workspace) report) := by
  simp only [exec, exec?, h, Option.bind_eq_bind, Option.bind_some]
  cases run.next? (m.automaton s.workspace) <;> rfl

theorem exec_next_of_none (h : s.run? name = none) : s.exec (.next name) = (s, .unknown) := by
  simp only [exec, exec?, h]
  rfl

theorem exec_simulate (h : s.machine? automaton = some m) :
    (s.exec (.simulate automaton word)).2 =
      .ofSimulation (m.label s.workspace) ((m.automaton s.workspace).simulate word) := by
  simp only [exec, exec?, h]
  rfl

/-- A command that makes and changes neither states nor automatons leaves the session as it is, or binds the run that it
begins or asks for the next report. -/
theorem exec_fst_cases (s : Session) (h : c.keepsMachines = true) :
    (s.exec c).1 = s ∨
      ∃ run m r, (c.begins run = true ∨ c = .next run) ∧ (s.exec c).1 = s.bindRun run m r := by
  rcases Command.cases_of_keepsMachines h with h | ⟨run, automaton, word, rfl⟩ | ⟨run, rfl⟩
  · exact Or.inl (congrArg Prod.fst (exec_of_looks s s.runs h))
  · cases hm : s.machine? automaton with
    | none => exact Or.inl (by rw [exec_begin_of_none hm])
    | some m =>
      have hbegins : (Command.begin run automaton word).begins run = true := decide_eq_true rfl
      exact Or.inr ⟨run, m, _, Or.inl hbegins, by rw [exec_begin hm]⟩
  · cases hrun : s.run? run with
    | none => exact Or.inl (by rw [exec_next_of_none hrun])
    | some found =>
      obtain ⟨m, r⟩ := found
      rw [exec_next hrun]
      cases r.next? (m.automaton s.workspace) with
      | none => exact Or.inl rfl
      | some next => exact Or.inr ⟨run, m, next.2, Or.inr rfl, rfl⟩

theorem exists_runs_of_keepsMachines (s : Session) (h : c.keepsMachines = true) :
    ∃ runs, (s.exec c).1 = { s with runs } := by
  rcases exec_fst_cases s h with hsame | ⟨run, m, r, -, hbind⟩
  · exact ⟨s.runs, hsame⟩
  · exact ⟨(run, m, r) :: s.runs, hbind⟩

theorem after_of_keepsMachines (s : Session) (h : ∀ c ∈ commands, c.keepsMachines = true) :
    ∃ runs, s.after commands = { s with runs } := by
  induction commands generalizing s with
  | nil => exact ⟨s.runs, rfl⟩
  | cons c commands ih =>
    rw [List.forall_mem_cons] at h
    obtain ⟨runs, hruns⟩ := exists_runs_of_keepsMachines s h.1
    obtain ⟨runs', hruns'⟩ := ih (s.exec c).1 h.2
    exact ⟨runs', by rw [after_cons, hruns', hruns]⟩

/-- The answer to a command that is not about the next report does not depend on the runs. -/
theorem exec_snd_runs (runs : Table (Machine × Run)) (h : c.keepsMachines = true) (hnext : ∀ run, c ≠ .next run) :
    (exec { s with runs } c).2 = (s.exec c).2 := by
  rcases Command.cases_of_keepsMachines h with h | ⟨run, automaton, word, rfl⟩ | ⟨run, rfl⟩
  · rw [exec_of_looks s runs h]
  · cases hm : s.machine? automaton with
    | none => rw [exec_begin_of_none hm, exec_begin_of_none (s := { s with runs }) hm]
    | some m => rw [exec_begin hm, exec_begin (s := { s with runs }) hm]
  · exact absurd rfl (hnext run)

/-! ### What a run has come to -/

theorem run?_bindRun_self (s : Session) (name : Name) (m : Machine) (run : Run) :
    (s.bindRun name m run).run? name = some (m, run) := by
  unfold run? bindRun
  rw [List.lookup_cons_self]

theorem run?_bindRun_of_ne {other : Name} (h : other ≠ name) (s : Session) (m : Machine) (run : Run) :
    (s.bindRun other m run).run? name = s.run? name := by
  have hne : (name == other) = false := beq_false_of_ne (Ne.symm h)
  simp only [run?, bindRun, List.lookup_cons, hne]

/-- A run stays as it is while others are begun and go on. -/
theorem run?_exec_of_ne (h : c.keepsMachines = true) (hbegins : c.begins name = false) (hnext : c ≠ .next name) :
    (s.exec c).1.run? name = s.run? name := by
  rcases exec_fst_cases s h with hsame | ⟨run, m, r, hrun, hbind⟩
  · rw [hsame]
  · have hne : run ≠ name := by
      rintro rfl
      rcases hrun with hrun | hrun
      · rw [hbegins] at hrun
        cases hrun
      · exact hnext hrun
    rw [hbind, run?_bindRun_of_ne hne]

variable {given : Nat}

/-- Asking a run for its next report moves it on by one. -/
theorem run?_exec_next (h : s.run? name = some (m, .after (m.automaton s.workspace) word given)) :
    (s.exec (.next name)).1.run? name = some (m, .after (m.automaton s.workspace) word (given + 1)) := by
  rw [exec_next h]
  rcases Nat.lt_or_ge word.length given with hlt | hle
  · rw [Run.next?_after_of_lt hlt, Run.after_succ_of_lt hlt]
    exact h
  · rw [Run.next?_after hle]
    exact run?_bindRun_self s name m _

/-- The step: a command moves a run on if it asks for the next report, and else leaves it as it is. -/
theorem run?_exec (hkeeps : c.keepsMachines = true) (hbegins : c.begins name = false)
    (h : s.run? name = some (m, .after (m.automaton s.workspace) word given)) :
    (s.exec c).1.run? name =
      some (m, .after (m.automaton s.workspace) word (given + if c = .next name then 1 else 0)) := by
  by_cases hnext : c = .next name
  · subst hnext
    rw [if_pos rfl, run?_exec_next h]
  · rw [if_neg hnext, run?_exec_of_ne hkeeps hbegins hnext, h, Nat.add_zero]

/-- **What a run has come to** is told by how often its next report was asked for, whatever else was done. -/
theorem run?_after (hkeeps : ∀ c ∈ commands, c.keepsMachines = true) (hbegins : ∀ c ∈ commands, c.begins name = false)
    (h : s.run? name = some (m, .after (m.automaton s.workspace) word given)) :
    (s.after commands).run? name =
      some (m, .after (m.automaton s.workspace) word (given + commands.count (.next name))) := by
  induction commands generalizing s given with
  | nil => exact h
  | cons c commands ih =>
    rw [List.forall_mem_cons] at hkeeps hbegins
    obtain ⟨runs, hruns⟩ := exists_runs_of_keepsMachines s hkeeps.1
    have hworkspace : (s.exec c).1.workspace = s.workspace := by rw [hruns]
    have hstep := run?_exec hkeeps.1 hbegins.1 h
    rw [← hworkspace] at hstep ⊢
    rw [after_cons, ih hkeeps.2 hbegins.2 hstep, List.count_cons, Nat.add_assoc, Nat.add_comm (commands.count _)]
    simp only [beq_iff_eq]

/-- The next report of a run, after any commands that leave states and automatons as they are. -/
theorem exec_next_after (hkeeps : ∀ c ∈ commands, c.keepsMachines = true)
    (hbegins : ∀ c ∈ commands, c.begins name = false) (h : s.run? name = some (m, .waiting word)) :
    ((s.after commands).exec (.next name)).2 =
      if commands.count (.next name) ≤ word.length then
        .ofSimulation (m.label s.workspace)
          ((m.automaton s.workspace).simulate (word.take (commands.count (.next name))))
      else .exhausted := by
  obtain ⟨runs, hruns⟩ := after_of_keepsMachines s hkeeps
  have hworkspace : (s.after commands).workspace = s.workspace := by rw [hruns]
  have hrun : (s.after commands).run? name =
      some (m, .after (m.automaton s.workspace) word (0 + commands.count (.next name))) := run?_after hkeeps hbegins h
  rw [Nat.zero_add] at hrun
  rw [exec_next hrun, hworkspace]
  by_cases hle : commands.count (.next name) ≤ word.length
  · rw [Run.next?_after hle, if_pos hle]
  · rw [Run.next?_after_of_lt (Nat.lt_of_not_le hle), if_neg hle]

/-- **Runs that take turns.** Where commands neither make nor change states and automatons, asking a run for its next report
gives, as long as there is one, the answer that simulating the part of its word up to there would give alone. Every other
command is answered as if it were the first one. -/
theorem answers_interleaved (s : Session) (commands : List Command) (h : ∀ c ∈ commands, c.keepsMachines = true) :
    (∀ before name automaton word between rest,
        commands = before ++ .begin name automaton word :: between ++ .next name :: rest →
        (s.machine? automaton).isSome = true → (∀ c ∈ between, c.begins name = false) →
          (s.answers commands)[(before ++ .begin name automaton word :: between).length]? =
            some (if between.count (.next name) ≤ word.length then
                (s.exec (.simulate automaton (word.take (between.count (.next name))))).2
              else .exhausted)) ∧
      ∀ before c rest, commands = before ++ c :: rest → (∀ name, c ≠ .next name) →
        (s.answers commands)[before.length]? = some (s.exec c).2 := by
  constructor
  · rintro before name automaton word between rest rfl hmachine hbegins
    obtain ⟨m, hm⟩ := Option.isSome_iff_exists.mp hmachine
    rw [List.append_assoc] at h
    rw [List.forall_mem_append, List.cons_append, List.forall_mem_cons, List.forall_mem_append] at h
    obtain ⟨hbefore, -, hbetween, -⟩ := h
    obtain ⟨runs, hruns⟩ := after_of_keepsMachines s hbefore
    -- the session in which the run has just begun
    have hbegun : (s.after before).exec (.begin name automaton word) =
        ((s.after before).bindRun name m (.waiting word), .done) := by
      rw [hruns]
      exact exec_begin hm
    have hrun := run?_bindRun_self (s.after before) name m (.waiting word)
    have hworkspace : ((s.after before).bindRun name m (.waiting word)).workspace = s.workspace := by
      rw [hruns]
      rfl
    rw [getElem?_answers, after_append, after_cons, hbegun, exec_next_after hbetween hbegins hrun, hworkspace,
      exec_simulate hm]
  · rintro before c rest rfl hnext
    rw [List.forall_mem_append, List.forall_mem_cons] at h
    obtain ⟨runs, hruns⟩ := after_of_keepsMachines s h.1
    rw [getElem?_answers, hruns, exec_snd_runs runs h.2.1 hnext]

/-- Two runs on one automaton and one word, with a simulation in between: the second run is exhausted when the first one has
given a single report. -/
theorem answers_interleaved_shared :
    let A : Name := ['A']
    let s := Session.after {} [.compile A (.tokens [.literal ['a'], .operator .star])]
    let word : Word := [['a']]
    let commands : List Command :=
      [.begin ['x'] A word, .begin ['y'] A word, .next ['y'], .next ['x'], .simulate A [['b']], .next ['y'], .next ['y'],
        .next ['x']]
    (s.answers commands)[7]? = some (s.exec (.simulate A word)).2 ∧
      (s.answers commands)[6]? = some .exhausted ∧
      (s.answers commands)[4]? = some (s.exec (.simulate A [['b']])).2 := by
  intro A s word commands
  have hkeeps : ∀ c ∈ commands, c.keepsMachines = true := by decide
  obtain ⟨hruns, hothers⟩ := answers_interleaved s commands hkeeps
  have hmachine : (s.machine? A).isSome = true := by decide
  refine ⟨?_, ?_, ?_⟩
  · exact hruns [] ['x'] A word
      [.begin ['y'] A word, .next ['y'], .next ['x'], .simulate A [['b']], .next ['y'], .next ['y']] [] rfl hmachine
      (by decide)
  · exact hruns [.begin ['x'] A word] ['y'] A word [.next ['y'], .next ['x'], .simulate A [['b']], .next ['y']]
      [.next ['x']] rfl hmachine (by decide)
  · exact hothers [.begin ['x'] A word, .begin ['y'] A word, .next ['y'], .next ['x']] (.simulate A [['b']])
      [.next ['y'], .next ['y'], .next ['x']] rfl (by simp)

end Session
end PatternAutomata
