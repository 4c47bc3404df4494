import PatternAutomata.Proofs.Soundness

/-!
# What was done to a state

In a session a state is made without edges, and edges are added to it one by one. In between anything may be done: the
state can be read and printed, other states and automatons can be made, changed and simulated. All that its table shows in
the end are the edges that were added, in their order (`Session.answers_after_additions`).

* `Session.addition?`, `Session.added` — the edges that commands add to the state with a name;
* `Session.Records` — what is known of this state: which it is, and the edges that it has got;
* `Session.Records.exec` — a command records the edge that it adds, and nothing else.

As long as a name is not given again it means one state, and no other name means it, so the commands that add edges to
the state are those that give its name.
-/

namespace PatternAutomata

open Successors

/-- The command makes a state of that name. -/
def Command.makes (name : Name) : Command → Bool
  | .newState state _ _ => state = name
  | _ => false

/-- The command makes or changes a state. -/
def Command.touches : Command → Bool
  | .newState .. | .addEdge .. | .setFinal .. => true
  | _ => false

/-- The line of an edge that leaves a state with a label. -/
def Workspace.edgeLine (ws : Workspace) (label : Int) (edge : Symbol × Nat) : Text :=
  Mesh.edge (Text.ofInt label) edge.1 (Text.ofInt (ws.label edge.2)) (ws.arena.isFinal edge.2)

namespace Session

/-- The edge that a command adds to the state with a name, if it adds one. -/
def addition? (s : Session) (name : Name) : Command → Option (Symbol × Nat)
  | .addEdge source symbol target =>
    if source = name then (s.state? target).map fun target => (symbol, target) else none
  | _ => none

/-- The edges that commands add to the state with a name, in their order. -/
def added (s : Session) (name : Name) : List Command → List (Symbol × Nat)
  | [] => []
  | c :: rest => (s.addition? name c).toList ++ (s.exec c).1.added name rest

/-- The form of a state with a label that some symbols leave. -/
def stateForm (label : Int) (symbols : List Symbol) : Text :=
  "<State ".toList ++ Text.ofInt label ++ [' ', '('] ++ Text.commaSeparated (symbols.map Symbol.display) ++ [')', '>']

theorem describeState_eq (label : Int) (state : State) :
    Mesh.describeState (Text.ofInt label) state = stateForm label state.successors.symbols := by
  unfold Mesh.describeState stateForm Text.parenthesized
  simp only [List.append_assoc, List.cons_append, List.nil_append]

/-- The name means the state `q`, and no other name does. The state has a label, and the edges were added to it in this
order. -/
structure Records (s : Session) (name : Name) (label : Int) (edges : List (Symbol × Nat)) (q : Nat) : Prop where
  sound : s.Sound
  state?_eq : s.state? name = some q
  eq_name : ∀ other, s.state? other = some q → other = name
  label_eq : s.workspace.label q = label
  successors_eq : (s.workspace.arena.state q).successors = .ofEdges edges

variable {s s' : Session} {name : Name} {label : Int} {edges : List (Symbol × Nat)} {q : Nat} {c : Command}

/-! ### Single commands -/

/-- The name of a new state means this state from now on, the other names mean what they meant. -/
theorem state?_exec_newState (s : Session) (name other : Name) (label : Int) (isFinal : Bool) :
    (s.exec (.newState name label isFinal)).1.state? other =
      if other = name then some s.workspace.size else s.state? other := by
  show (s.bindState name s.workspace.size).state? other = _
  rw [state?, bindState, lookup_cons_eq_ite, ← state?]

theorem exec_addEdge {source target : Name} {p r : Nat} (hsource : s.state? source = some p)
    (htarget : s.state? target = some r) (symbol : Symbol) :
    (s.exec (.addEdge source symbol target)).1 = { s with workspace := s.workspace.addEdge p symbol r } := by
  simp only [exec, exec?, hsource, htarget]
  rfl

theorem exec_addEdge_of_none {source target : Name} (h : s.state? source = none ∨ s.state? target = none)
    (symbol : Symbol) : (s.exec (.addEdge source symbol target)).1 = s := by
  rcases h with h | h
  · simp only [exec, exec?, h]
    rfl
  · simp only [exec, exec?, h]
    cases s.state? source <;> rfl

theorem exec_setFinal {state : Name} {p : Nat} (h : s.state? state = some p) (isFinal : Bool) :
    (s.exec (.setFinal state isFinal)).1 = { s with workspace := s.workspace.setFinal p isFinal } := by
  simp only [exec, exec?, h]
  rfl

theorem exec_setFinal_of_none {state : Name} (h : s.state? state = none) (isFinal : Bool) :
    (s.exec (.setFinal state isFinal)).1 = s := by
  simp only [exec, exec?, h]
  rfl

theorem states_exec_compile (s : Session) (name : Name) (source : Source) :
    (s.exec (.compile name source)).1.states = s.states ∧ (s.exec (.compile name source)).1.workspace = s.workspace := by
  simp only [exec, exec?]
  cases source.compile with
  | ok A => exact ⟨rfl, rfl⟩
  | error e => exact ⟨rfl, rfl⟩

theorem states_exec_assemble (s : Session) (name initial final : Name) (own : List Name) :
    (s.exec (.assemble name own initial final)).1.states = s.states ∧
      (s.exec (.assemble name own initial final)).1.workspace = s.workspace := by
  simp only [exec, exec?]
  cases own.mapM s.state? with
  | none => exact ⟨rfl, rfl⟩
  | some handles =>
    cases s.state? initial with
    | none => exact ⟨rfl, rfl⟩
    | some p => cases s.state? final <;> exact ⟨rfl, rfl⟩

/-- Machines and runs may come and go without the states being touched. -/
theorem states_exec_of_not_touches (s : Session) (h : c.touches = false) :
    (s.exec c).1.states = s.states ∧ (s.exec c).1.workspace = s.workspace := by
  cases hkeeps : c.keepsMachines with
  | true =>
    obtain ⟨runs, hruns⟩ := exists_runs_of_keepsMachines s hkeeps
    rw [hruns]
    exact ⟨rfl, rfl⟩
  | false =>
    cases c with
    | compile other source => exact states_exec_compile s other source
    | assemble other own initial final => exact states_exec_assemble s other initial final own
    | newState | addEdge | setFinal => cases h
    | _ => cases hkeeps

theorem addition?_of_not_touches (s : Session) (name : Name) (h : c.touches = false) : s.addition? name c = none := by
  cases c with
  | addEdge => cases h
  | _ => rfl

theorem label_addState_of_lt {ws : Workspace} (h : q < ws.labels.size) (label : Int) (isFinal : Bool) :
    (ws.addState label isFinal).label q = ws.label q := by
  simp only [Workspace.label, Workspace.addState, Array.getD_eq_getD_getElem?, Array.getElem?_push_lt h,
    Array.getElem?_eq_getElem h]

theorem label_addState_self {ws : Workspace} (h : ws.labels.size = ws.size) (label : Int) (isFinal : Bool) :
    (ws.addState label isFinal).label ws.size = label := by
  simp only [Workspace.label, Workspace.addState, Array.getD_eq_getD_getElem?, ← h, Array.getElem?_push_size,
    Option.getD_some]

/-! ### The step -/

/-- A state that has just been made has no edges. -/
theorem Sound.records (h : s.Sound) (name : Name) (label : Int) (isFinal : Bool) :
    (s.exec (.newState name label isFinal)).1.Records name label [] s.workspace.size where
  sound := h.exec _
  state?_eq := by rw [state?_exec_newState, if_pos rfl]
  eq_name other hother := by
    rw [state?_exec_newState] at hother
    by_contra hne
    rw [if_neg hne] at hother
    exact Nat.lt_irrefl _ (h.state_lt other _ hother)
  label_eq := label_addState_self h.workspace.size_labels label isFinal
  successors_eq := by
    show ((s.workspace.arena.addState isFinal).state s.workspace.arena.size).successors = _
    rw [Arena.successors_addState, Arena.state_of_size_le (Nat.le_refl _)]
    rfl

namespace Records

variable (h : s.Records name label edges q)
include h

theorem lt_size : q < s.workspace.size := h.sound.state_lt name q h.state?_eq

/-- Where states are not touched, the records stay. -/
theorem of_states_eq (hsound : s'.Sound) (hstates : s'.states = s.states) (hworkspace : s'.workspace = s.workspace) :
    s'.Records name label edges q where
  sound := hsound
  state?_eq := by rw [state?, hstates, ← state?, h.state?_eq]
  eq_name other hother := h.eq_name other (by rw [state?, ← hstates, ← state?, hother])
  label_eq := by rw [hworkspace, h.label_eq]
  successors_eq := by rw [hworkspace, h.successors_eq]

theorem exec_newState {other : Name} (hne : other ≠ name) (l : Int) (isFinal : Bool) :
    (s.exec (.newState other l isFinal)).1.Records name label edges q where
  sound := h.sound.exec _
  state?_eq := by rw [state?_exec_newState, if_neg (Ne.symm hne), h.state?_eq]
  eq_name another hanother := by
    rw [state?_exec_newState] at hanother
    split at hanother
    next =>
      -- the new state is another one
      obtain rfl := Option.some.inj hanother
      exact absurd h.lt_size (Nat.lt_irrefl _)
    next => exact h.eq_name another hanother
  label_eq := by
    have hlt : q < s.workspace.labels.size := Nat.lt_of_lt_of_eq h.lt_size h.sound.workspace.size_labels.symm
    exact (label_addState_of_lt hlt l isFinal).trans h.label_eq
  successors_eq := (Arena.successors_addState s.workspace.arena isFinal q).trans h.successors_eq

theorem exec_setFinal (state : Name) (isFinal : Bool) :
    (s.exec (.setFinal state isFinal)).1.Records name label edges q := by
  cases hstate : s.state? state with
  | none =>
    rw [exec_setFinal_of_none hstate]
    exact h
  | some p =>
    have hp : p < s.workspace.arena.size := h.sound.state_lt state p hstate
    have hsound := h.sound.exec (.setFinal state isFinal)
    rw [Session.exec_setFinal hstate] at hsound ⊢
    refine ⟨hsound, h.state?_eq, h.eq_name, h.label_eq, ?_⟩
    show ((s.workspace.arena.setFinal p isFinal).state q).successors = _
    rw [Arena.state_setFinal hp, ← h.successors_eq]
    split <;> rfl

/-- An edge is recorded if the state has the name that is given as its source. -/
theorem exec_addEdge (source : Name) (symbol : Symbol) (target : Name) :
    (s.exec (.addEdge source symbol target)).1.Records name label
      (edges ++ (s.addition? name (.addEdge source symbol target)).toList) q := by
  have hsound := h.sound.exec (.addEdge source symbol target)
  cases htarget : s.state? target with
  | none =>
    have hnone : s.addition? name (.addEdge source symbol target) = none := by
      rw [addition?, htarget, Option.map_none, ite_self]
    rw [exec_addEdge_of_none (Or.inr htarget), hnone, Option.toList_none, List.append_nil]
    exact h
  | some r =>
    rw [addition?, htarget, Option.map_some]
    cases hsource : s.state? source with
    | none =>
      have hne : source ≠ name := by
        rintro rfl
        cases hsource.symm.trans h.state?_eq
      rw [exec_addEdge_of_none (Or.inl hsource), if_neg hne, Option.toList_none, List.append_nil]
      exact h
    | some p =>
      have hp : p < s.workspace.arena.size := h.sound.state_lt source p hsource
      rw [Session.exec_addEdge hsource htarget] at hsound ⊢
      refine ⟨hsound, h.state?_eq, h.eq_name, h.label_eq, ?_⟩
      show ((s.workspace.arena.addEdge p symbol r).state q).successors = _
      rw [Arena.state_addEdge hp]
      by_cases hname : source = name
      · subst hname
        obtain rfl : p = q := Option.some.inj (hsource.symm.trans h.state?_eq)
        rw [if_pos rfl, if_pos rfl, Option.toList_some, ofEdges_append_singleton, ← h.successors_eq]
      · have hne : q ≠ p := by
          rintro rfl
          exact hname (h.eq_name source hsource)
        rw [if_neg hne, if_neg hname, Option.toList_none, List.append_nil, h.successors_eq]

/-- **The step**: a command that does not give the name again records the edge that it adds. -/
theorem exec (hc : c.makes name = false) :
    (s.exec c).1.Records name label (edges ++ (s.addition? name c).toList) q := by
  cases htouches : c.touches with
  | false =>
    obtain ⟨hstates, hworkspace⟩ := states_exec_of_not_touches s htouches
    rw [addition?_of_not_touches s name htouches, Option.toList_none, List.append_nil]
    exact h.of_states_eq (h.sound.exec c) hstates hworkspace
  | true =>
    cases c with
    | newState other l isFinal =>
      have hother : other ≠ name := of_decide_eq_false hc
      simpa only [addition?, Option.toList_none, List.append_nil] using h.exec_newState hother l isFinal
    | addEdge source symbol target => exact h.exec_addEdge source symbol target
    | setFinal state isFinal =>
      simpa only [addition?, Option.toList_none, List.append_nil] using h.exec_setFinal state isFinal
    | _ => cases htouches

/-- **The run**: commands that do not give the name again record the edges that they add. -/
theorem after {commands : List Command} (hcommands : ∀ c ∈ commands, c.makes name = false) :
    (s.after commands).Records name label (edges ++ s.added name commands) q := by
  induction commands generalizing s edges with
  | nil =>
    rw [added, List.append_nil]
    exact h
  | cons c commands ih =>
    rw [List.forall_mem_cons] at hcommands
    rw [after_cons, added, ← List.append_assoc]
    exact ih (h.exec hcommands.1) hcommands.2

/-! ### Answers -/

theorem read_eq (symbol : Symbol) : s.workspace.arena.read q symbol = targetsOf edges symbol := by
  rw [Arena.read, h.successors_eq, read_ofEdges]

theorem describe_eq : s.workspace.describe q = stateForm label (edges.map Prod.fst).eraseDups := by
  rw [Workspace.describe, Workspace.labelText, describeState_eq, h.label_eq, h.successors_eq, symbols_ofEdges]

theorem edgeLines_eq : s.workspace.edgeLines q = (bySymbol edges).map (s.workspace.edgeLine label) := by
  have hedges : s.workspace.arena.edges q = bySymbol edges := by
    rw [Arena.edges, h.successors_eq, edges_ofEdges]
  rw [Workspace.edgeLines, Mesh.edgesFrom, hedges, Workspace.labelText, h.label_eq]
  rfl

theorem exec_read (symbol : Symbol) :
    s.exec (.read name symbol) =
      (s, .successors ((targetsOf edges symbol).map s.workspace.label)
        (stateForm label (edges.map Prod.fst).eraseDups)) := by
  rw [← h.read_eq, ← h.describe_eq]
  simp only [Session.exec, exec?, h.state?_eq]
  rfl

theorem exec_epsilons :
    s.exec (.epsilons name) = (s, .labels ((targetsOf edges Symbol.epsilon).map s.workspace.label)) := by
  rw [← h.read_eq]
  simp only [Session.exec, exec?, h.state?_eq]
  rfl

theorem exec_print :
    s.exec (.print name) = (s, .text (Text.unlines ((bySymbol edges).map (s.workspace.edgeLine label)))) := by
  rw [← h.edgeLines_eq]
  simp only [Session.exec, exec?, h.state?_eq]
  rfl

end Records

/-- **The table of a state keeps all edges in order**, whatever was done before the state was made and since then. Reading a
symbol gives the targets of the edges with this symbol, in the order in which they were added and as often. The form of
the state shows the symbols of the edges, each once and in the order in which they first occurred. Printing lists each
edge that was added once: by symbol in this order, and the edges of a symbol in theirs. None of it changes anything. -/
theorem answers_after_additions (before commands : List Command) (name : Name) (label : Int) (isFinal : Bool)
    (h : ∀ c ∈ commands, c.makes name = false) :
    let made := Session.after {} (before ++ [.newState name label isFinal])
    let s := made.after commands
    let edges := made.added name commands
    (∃ q, s.state? name = some q ∧ ∀ symbol, s.workspace.arena.read q symbol = targetsOf edges symbol) ∧
      (∀ symbol, s.exec (.read name symbol) =
        (s, .successors ((targetsOf edges symbol).map s.workspace.label)
          (stateForm label (edges.map Prod.fst).eraseDups))) ∧
      s.exec (.epsilons name) = (s, .labels ((targetsOf edges Symbol.epsilon).map s.workspace.label)) ∧
      s.exec (.print name) = (s, .text (Text.unlines ((bySymbol edges).map (s.workspace.edgeLine label)))) ∧
      (bySymbol edges).Perm edges := by
  intro made s edges
  have hmade : made.Records name label [] (Session.after {} before).workspace.size := by
    have hsplit : made = ((Session.after {} before).exec (.newState name label isFinal)).1 := after_append _ _ _
    rw [hsplit]
    exact (sound_after before).records name label isFinal
  have hrecords : s.Records name label edges (Session.after {} before).workspace.size := hmade.after h
  exact ⟨⟨_, hrecords.state?_eq, hrecords.read_eq⟩, hrecords.exec_read, hrecords.exec_epsilons, hrecords.exec_print,
    edges_ofEdges edges ▸ edges_ofEdges_perm edges⟩

/-- An edge is added twice, another symbol in between, and once more when the name of its target has gone to a new state.
Reading a symbol that no edge has leaves no trace. -/
theorem answers_after_additions_doubled :
    let x : Name := ['x']
    let before : List Command := [.newState ['y'] 8 false, .newState ['z'] 9 true]
    let commands : List Command :=
      [.addEdge x ['a'] ['y'], .read x ['b'], .addEdge x [] ['z'], .addEdge x ['a'] ['y'], .print x,
        .newState ['y'] 10 false, .addEdge x ['a'] ['y']]
    let s := (Session.after {} (before ++ [.newState x 7 false])).after commands
    (∀ c ∈ commands, c.makes x = false) ∧
      s.exec (.read x ['a']) = (s, .successors [8, 8, 10] "<State 7 (a, ε)>".toList) ∧
      s.exec (.read x ['b']) = (s, .successors [] "<State 7 (a, ε)>".toList) ∧
      s.exec (.print x) = (s, .text "(7) a (8)\n(7) a (8)\n(7) a (10)\n(7) ε (9) -->\n".toList) := by
  intro x before commands s
  have hcommands : ∀ c ∈ commands, c.makes x = false := by decide
  let edges := (Session.after {} (before ++ [.newState x 7 false])).added x commands
  have hform : stateForm 7 (edges.map Prod.fst).eraseDups = "<State 7 (a, ε)>".toList := by decide
  have ha : (targetsOf edges ['a']).map s.workspace.label = [8, 8, 10] := by decide
  have hb : (targetsOf edges ['b']).map s.workspace.label = [] := by decide
  have hlines : Text.unlines ((bySymbol edges).map (s.workspace.edgeLine 7)) =
      "(7) a (8)\n(7) a (8)\n(7) a (10)\n(7) ε (9) -->\n".toList := by decide
  obtain ⟨-, hread, -, hprint, -⟩ := answers_after_additions before commands x 7 false hcommands
  refine ⟨hcommands, ?_, ?_, ?_⟩
  · rw [hread, ha, hform]
  · rw [hread, hb, hform]
  · rw [hprint, hlines]

end Session
end PatternAutomata
