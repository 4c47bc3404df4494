import PatternAutomata.Proofs.Interleaving
import PatternAutomata.Proofs.Placement
import PatternAutomata.Proofs.Shape

/-!
# Sessions hold sound automatons

Whatever was done in a session, every handle that it knows means a state, no edge leads out of the workspace, and the
tables of the states are made of the edges that were added to them (`Session.sound_after`). So every automaton that
has a name or is run lies in an arena that no edge leaves (`Session.Sound.closed_automaton`): what is said of such
automatons is said of all that a session can come to.

States are never taken away, so what fits a workspace fits it after it has grown (`Machine.Fits.mono`).
-/

namespace PatternAutomata

/-! ### Workspaces -/

namespace Workspace

/-- Every state has a label, no edge leads out, and the tables are made of the edges that were added. -/
structure Sound (ws : Workspace) : Prop where
  size_labels : ws.labels.size = ws.size
  closed : ws.arena.Closed
  madeOf : ∃ added, ws.arena.MadeOf added

variable {ws : Workspace} {p q : Nat}

theorem size_addState (ws : Workspace) (label : Int) (isFinal : Bool) : (ws.addState label isFinal).size = ws.size + 1 :=
  Arena.size_addState ws.arena isFinal

theorem size_addEdge (ws : Workspace) (p : Nat) (c : Symbol) (q : Nat) : (ws.addEdge p c q).size = ws.size :=
  Arena.size_addEdge ws.arena p c q

theorem size_setFinal (ws : Workspace) (q : Nat) (isFinal : Bool) : (ws.setFinal q isFinal).size = ws.size :=
  Arena.size_setFinal ws.arena q isFinal

theorem sound_empty : Sound {} where
  size_labels := rfl
  closed := by decide
  madeOf := ⟨_, Arena.madeOf_empty⟩

theorem Sound.addState (h : ws.Sound) (label : Int) (isFinal : Bool) : (ws.addState label isFinal).Sound where
  size_labels := by
    rw [size_addState, Workspace.addState, Array.size_push, h.size_labels]
  closed := by
    refine Arena.closed_iff.mpr fun p c q hedge => ?_
    have hold : ws.arena.graph p c q := by
      unfold Arena.graph Arena.edges at hedge ⊢
      rwa [Workspace.addState, Arena.successors_addState] at hedge
    have hlt : q < ws.arena.size := Arena.closed_iff.mp h.closed p c q hold
    exact Nat.lt_trans hlt (Nat.lt_of_lt_of_eq (Nat.lt_succ_self _) (size_addState ws label isFinal).symm)
  madeOf := by
    obtain ⟨added, hadded⟩ := h.madeOf
    exact ⟨_, hadded.addState isFinal⟩

theorem Sound.addEdge (h : ws.Sound) (hp : p < ws.size) (c : Symbol) (hq : q < ws.size) : (ws.addEdge p c q).Sound where
  size_labels := h.size_labels.trans (size_addEdge ws p c q).symm
  closed := by
    refine Arena.closed_iff.mpr fun p' c' q' hedge => ?_
    have hlt : q' < ws.size := by
      rcases (Arena.graph_addEdge hp).mp hedge with hold | ⟨-, -, rfl⟩
      · exact Arena.closed_iff.mp h.closed p' c' q' hold
      · exact hq
    exact Nat.lt_of_lt_of_eq hlt (size_addEdge ws p c q).symm
  madeOf := by
    obtain ⟨added, hadded⟩ := h.madeOf
    exact ⟨_, hadded.addEdge hp c q⟩

theorem Sound.setFinal (h : ws.Sound) (hq : q < ws.size) (isFinal : Bool) : (ws.setFinal q isFinal).Sound where
  size_labels := h.size_labels.trans (size_setFinal ws q isFinal).symm
  closed := by
    refine Arena.closed_iff.mpr fun p' c' q' hedge => ?_
    have hlt : q' < ws.size := Arena.closed_iff.mp h.closed p' c' q' ((Arena.graph_setFinal hq isFinal).mp hedge)
    exact Nat.lt_of_lt_of_eq hlt (size_setFinal ws q isFinal).symm
  madeOf := by
    obtain ⟨added, hadded⟩ := h.madeOf
    exact ⟨added, hadded.setFinal hq isFinal⟩

end Workspace

/-! ### Machines -/

namespace Machine

variable {ws ws' : Workspace} {m : Machine}

/-- A compiled automaton is not left by its edges, and an assembly is made of states of the workspace. -/
def Fits (ws : Workspace) : Machine → Prop
  | compiled A => A.arena.Closed ∧ A.initial < A.size
  | assembled a => a.initial < ws.size ∧ a.final < ws.size ∧ ∀ q ∈ a.own, q < ws.size

theorem Fits.mono (h : m.Fits ws) (hle : ws.size ≤ ws'.size) : m.Fits ws' := by
  cases m with
  | compiled A => exact h
  | assembled a =>
    obtain ⟨hinitial, hfinal, hown⟩ := h
    exact ⟨Nat.lt_of_lt_of_le hinitial hle, Nat.lt_of_lt_of_le hfinal hle, fun q hq => Nat.lt_of_lt_of_le (hown q hq) hle⟩

end Machine

/-! ### Sessions -/

namespace Session

/-- Everything that has a name fits the workspace. -/
structure Sound (s : Session) : Prop where
  workspace : s.workspace.Sound
  state_lt : ∀ name q, s.state? name = some q → q < s.workspace.size
  machine_fits : ∀ name m, s.machine? name = some m → m.Fits s.workspace
  run_fits : ∀ name m run, s.run? name = some (m, run) → m.Fits s.workspace

variable {s : Session} {name : Name} {m : Machine}

theorem eq_or_of_lookup_cons {α : Type} {table : Table α} {other : Name} {x y : α}
    (h : List.lookup name ((other, x) :: table) = some y) : y = x ∨ table.lookup name = some y := by
  rw [List.lookup_cons] at h
  split at h
  · exact Or.inl (Option.some.inj h).symm
  · exact Or.inr h

theorem exists_state?_of_mapM {names : List Name} {own : List Nat} (h : names.mapM s.state? = some own) :
    ∀ q ∈ own, ∃ name, s.state? name = some q := by
  induction names generalizing own with
  | nil =>
    obtain rfl := Option.some.inj h
    intro q hq
    cases hq
  | cons name names ih =>
    rw [List.mapM_cons] at h
    obtain ⟨p, hp, h⟩ := Option.bind_eq_some_iff.mp h
    obtain ⟨rest, hrest, h⟩ := Option.bind_eq_some_iff.mp h
    obtain rfl := Option.some.inj h
    intro q hq
    rcases List.mem_cons.mp hq with rfl | hq
    · exact ⟨name, hp⟩
    · exact ih hrest q hq

theorem sound_empty : Sound {} where
  workspace := Workspace.sound_empty
  state_lt _ _ h := nomatch h
  machine_fits _ _ h := nomatch h
  run_fits _ _ _ h := nomatch h

namespace Sound

variable (h : s.Sound)
include h

theorem bindMachine (hm : m.Fits s.workspace) (name : Name) : (s.bindMachine name m).Sound where
  workspace := h.workspace
  state_lt := h.state_lt
  machine_fits _ _ hfound := by
    rcases eq_or_of_lookup_cons hfound with rfl | hold
    · exact hm
    · exact h.machine_fits _ _ hold
  run_fits := h.run_fits

theorem bindRun (hm : m.Fits s.workspace) (name : Name) (run : Run) : (s.bindRun name m run).Sound where
  workspace := h.workspace
  state_lt := h.state_lt
  machine_fits := h.machine_fits
  run_fits _ _ _ hfound := by
    rcases eq_or_of_lookup_cons hfound with heq | hold
    · cases heq
      exact hm
    · exact h.run_fits _ _ _ hold

/-- The workspace may be changed if it stays sound and does not lose states. -/
theorem withWorkspace {ws : Workspace} (hws : ws.Sound) (hle : s.workspace.size ≤ ws.size) :
    Sound { s with workspace := ws } where
  workspace := hws
  state_lt name q hq := Nat.lt_of_lt_of_le (h.state_lt name q hq) hle
  machine_fits name m hm := (h.machine_fits name m hm).mono hle
  run_fits name m run hrun := (h.run_fits name m run hrun).mono hle

theorem bindState {q : Nat} (hq : q < s.workspace.size) (name : Name) : (s.bindState name q).Sound where
  workspace := h.workspace
  state_lt _ _ hfound := by
    rcases eq_or_of_lookup_cons hfound with rfl | hold
    · exact hq
    · exact h.state_lt _ _ hold
  machine_fits := h.machine_fits
  run_fits := h.run_fits

end Sound

theorem ofPostfix_fits {ts : List Token} {A : Automaton} (h : Automaton.ofPostfix ts = .ok A) (ws : Workspace) :
    (Machine.compiled A).Fits ws := by
  obtain ⟨e, -, rfl⟩ := Automaton.ofPostfix_eq_ok_iff.mp h
  exact ⟨e.closed_automaton, e.initial_lt_size_automaton⟩

theorem compile_fits {source : Source} {A : Automaton} (h : source.compile = .ok A) (ws : Workspace) :
    (Machine.compiled A).Fits ws := by
  cases source with
  | tokens ts => exact ofPostfix_fits h ws
  | pattern p alphabet =>
    simp only [Source.compile, Automaton.ofPattern] at h
    split at h
    · cases h
    · exact ofPostfix_fits h ws

/-- A command leaves a session sound. -/
theorem Sound.exec? (h : s.Sound) {c : Command} {s' : Session} {answer : Answer} (hexec : s.exec? c = some (s', answer)) :
    s'.Sound := by
  by_cases hlooks : c.looks = true
  · have hsame : (s.exec c).1 = s := congrArg Prod.fst (exec_of_looks s s.runs hlooks)
    rw [Session.exec, hexec] at hsame
    obtain rfl : s' = s := hsame
    exact h
  cases c with
  | compile name source =>
    simp only [Session.exec?] at hexec
    split at hexec
    next A hA =>
      cases hexec
      exact h.bindMachine (compile_fits hA _) name
    next =>
      cases hexec
      exact h
  | newState name label isFinal =>
    cases hexec
    have hsize := Workspace.size_addState s.workspace label isFinal
    have hgrown := h.withWorkspace (h.workspace.addState label isFinal) (by omega)
    exact hgrown.bindState (show s.workspace.size < (s.workspace.addState label isFinal).size by omega) name
  | addEdge source symbol target =>
    obtain ⟨p, hp, hexec⟩ := Option.bind_eq_some_iff.mp hexec
    obtain ⟨q, hq, hexec⟩ := Option.bind_eq_some_iff.mp hexec
    cases hexec
    exact h.withWorkspace (h.workspace.addEdge (h.state_lt _ p hp) symbol (h.state_lt _ q hq))
      (Nat.le_of_eq (Workspace.size_addEdge s.workspace p symbol q).symm)
  | setFinal state isFinal =>
    obtain ⟨q, hq, hexec⟩ := Option.bind_eq_some_iff.mp hexec
    cases hexec
    exact h.withWorkspace (h.workspace.setFinal (h.state_lt _ q hq) isFinal)
      (Nat.le_of_eq (Workspace.size_setFinal s.workspace q isFinal).symm)
  | assemble name states initial final =>
    obtain ⟨own, hown, hexec⟩ := Option.bind_eq_some_iff.mp hexec
    obtain ⟨p, hp, hexec⟩ := Option.bind_eq_some_iff.mp hexec
    obtain ⟨r, hr, hexec⟩ := Option.bind_eq_some_iff.mp hexec
    cases hexec
    have hlt : ∀ q ∈ own, q < s.workspace.size := by
      intro q hq
      obtain ⟨name, hname⟩ := exists_state?_of_mapM hown q hq
      exact h.state_lt name q hname
    have hfits : (Machine.assembled ⟨own, p, r⟩).Fits s.workspace := ⟨h.state_lt _ p hp, h.state_lt _ r hr, hlt⟩
    exact h.bindMachine hfits name
  | begin run automaton word =>
    obtain ⟨m, hm, hexec⟩ := Option.bind_eq_some_iff.mp hexec
    cases hexec
    exact h.bindRun (h.machine_fits _ m hm) run _
  | next name =>
    obtain ⟨⟨m, run⟩, hrun, hexec⟩ := Option.bind_eq_some_iff.mp hexec
    simp only at hexec
    split at hexec
    next =>
      cases hexec
      exact h
    next =>
      cases hexec
      exact h.bindRun (h.run_fits _ m run hrun) name _
  | read | epsilons | print | closure | inspect | simulate | accepts | closureOf | readFrom => exact absurd rfl hlooks

theorem Sound.exec (h : s.Sound) (c : Command) : (s.exec c).1.Sound := by
  unfold Session.exec
  cases hexec : s.exec? c with
  | none => exact h
  | some result => exact h.exec? hexec

theorem Sound.after (h : s.Sound) (commands : List Command) : (s.after commands).Sound := by
  induction commands generalizing s with
  | nil => exact h
  | cons c commands ih => exact ih (h.exec c)

/-- **Whatever was done in a session, it is sound.** -/
theorem sound_after (commands : List Command) : (Session.after {} commands).Sound := sound_empty.after commands

/-- No edge leads out of an automaton that has a name. -/
theorem Sound.closed_automaton (h : s.Sound) (hm : s.machine? name = some m) :
    (m.automaton s.workspace).arena.Closed ∧ (m.automaton s.workspace).initial < (m.automaton s.workspace).size := by
  have hfits := h.machine_fits name m hm
  cases m with
  | compiled A => exact hfits
  | assembled a => exact ⟨h.workspace.closed, hfits.1⟩

/-- An assembly that has a name is placed if its labels are the positions and its edges lead to its own states. -/
theorem Sound.placed {a : Assembly} (h : s.Sound) (hm : s.machine? name = some (.assembled a))
    (hlabel : ∀ i (hi : i < a.own.length), s.workspace.label a.own[i] = i) (hinitial : a.initial ∈ a.own)
    (htarget : ∀ q ∈ a.own, ∀ r ∈ s.workspace.arena.targets q, r ∈ a.own) : a.Placed s.workspace where
  size_labels := h.workspace.size_labels
  own_lt := (h.machine_fits name _ hm).2.2
  label_own := hlabel
  initial_mem := hinitial
  target_mem := htarget

end Session
end PatternAutomata
