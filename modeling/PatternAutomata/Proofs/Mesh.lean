import PatternAutomata.Proofs.Transition

/-!
# The mesh shows the transitions

The mesh is printed to a text first, which is then cut into lines to move those of edges to final states to the end. If no
symbol holds a character at which lines end, the lines that are found are those of the edges, and a line ends in an arrow
just if its edge leads to a final state, whatever its symbol is. So the mesh shows the transitions, in another order
(`Automaton.mesh_shows_transitions`).

* `Automaton.edgeLine` — the line of an edge, spelled out;
* `Automaton.arrow_isSuffixOf_edgeLine` — the arrow tells the edges to final states;
* `Mesh.lines_of_forall_unbroken` — what becomes of lines within which none ends;
* `Automaton.discovered` — the edges in the order in which their sources were found.
-/

namespace PatternAutomata

/-! ### The line of an edge -/

theorem Text.not_isLineEnd_of_isDigit {c : Char} (h : c.isDigit = true) : ¬ IsLineEnd isSeparator c := by
  have hbounds : 48 ≤ c.toNat ∧ c.toNat ≤ 57 := by simpa [Char.isDigit, UInt32.le_iff_toNat_le] using h
  have hne : ∀ d : Char, d.toNat < 48 ∨ 57 < d.toNat → c ≠ d := by
    rintro d hd rfl
    omega
  rintro (hc | hc | hc)
  · exact hne '\n' (by decide) hc
  · exact hne '\r' (by decide) hc
  · simp only [isSeparator, List.mem_cons, List.not_mem_nil, or_false, decide_eq_true_eq] at hc
    rcases hc with hc | hc | hc | hc | hc | hc | hc | hc <;> exact hne _ (by decide) hc

theorem Text.unbroken_ofNat (n : Nat) : Unbroken isSeparator (Text.ofNat n) := fun _ hc =>
  not_isLineEnd_of_isDigit (Nat.isDigit_of_mem_toDigits (by decide) (by decide) hc)

namespace Automaton

variable {A : Automaton} {t : Transition}

/-- The line of an edge: its source and target in parentheses, its symbol between them, and an arrow if the target is
final. -/
def edgeLine (A : Automaton) (t : Transition) : Text :=
  ['('] ++ Text.ofNat t.source ++ [')', ' '] ++ (if t.symbol = Symbol.epsilon then ['ε'] else t.symbol) ++ [' ', '('] ++
    Text.ofNat t.target ++ [')'] ++ (if A.arena.isFinal t.target then [' ', '-', '-', '>'] else [])

theorem edge_eq_edgeLine (A : Automaton) (t : Transition) :
    Mesh.edge (Text.ofNat t.source) t.symbol (Text.ofNat t.target) (A.arena.isFinal t.target) = A.edgeLine t := by
  simp [Mesh.edge, edgeLine, Text.parenthesized, Symbol.display, Mesh.arrow]

theorem unbroken_edgeLine (h : Text.Unbroken Text.isSeparator t.symbol) :
    Text.Unbroken Text.isSeparator (A.edgeLine t) := by
  have hsource := Text.unbroken_ofNat t.source
  have htarget := Text.unbroken_ofNat t.target
  have hsymbol : Text.Unbroken Text.isSeparator (if t.symbol = Symbol.epsilon then ['ε'] else t.symbol) := by
    split
    · decide
    · exact h
  have harrow : Text.Unbroken Text.isSeparator (if A.arena.isFinal t.target then [' ', '-', '-', '>'] else []) := by
    split <;> decide
  simp only [edgeLine, Text.unbroken_append]
  exact ⟨⟨⟨⟨⟨⟨⟨by decide, hsource⟩, by decide⟩, hsymbol⟩, by decide⟩, htarget⟩, by decide⟩, harrow⟩

/-- **The arrow tells the edges to final states.** A line without it ends in a parenthesis. -/
theorem arrow_isSuffixOf_edgeLine (A : Automaton) (t : Transition) :
    Mesh.arrow.isSuffixOf (A.edgeLine t) = A.arena.isFinal t.target := by
  cases hfinal : A.arena.isFinal t.target with
  | true =>
    rw [List.isSuffixOf_iff_suffix, edgeLine, hfinal, if_pos rfl]
    exact (List.suffix_cons ' ' Mesh.arrow).trans (List.suffix_append _ _)
  | false =>
    rw [Bool.eq_false_iff, ne_eq, List.isSuffixOf_iff_suffix, edgeLine, hfinal, if_neg Bool.false_ne_true, List.append_nil]
    rintro ⟨front, heq⟩
    have hlast := congrArg List.getLast? heq
    rw [List.getLast?_concat, List.getLast?_append] at hlast
    exact absurd hlast (by simp [Mesh.arrow])

end Automaton

/-! ### Lines of a mesh -/

namespace Mesh

variable {initial : Text} {edges : List Text}

theorem unbroken_header (n : Nat) : Text.Unbroken Text.isSeparator (header (Text.ofNat n)) := by
  have hblank : ∀ length, Text.Unbroken Text.isSeparator (List.replicate length ' ') := by
    intro length c hc
    rw [List.eq_of_mem_replicate hc]
    decide
  simp only [header, Text.parenthesized, Text.unbroken_append, Text.unbroken_cons]
  exact ⟨⟨hblank _, by decide, by decide⟩, by decide, ⟨by decide, Text.unbroken_ofNat n⟩, by decide⟩

/-- Edges within which no line ends are the lines behind the header, those that end in an arrow behind the others. -/
theorem lines_of_forall_unbroken (h : ∀ line ∈ edges, Text.Unbroken Text.isSeparator line) :
    lines initial edges =
      header initial :: (edges.filter (fun line => !arrow.isSuffixOf line) ++ edges.filter fun line => arrow.isSuffixOf line) := by
  rw [lines, Text.printedLines, Text.linesWith_unlines h, List.partition_eq_filter_filter]
  rfl

end Mesh

/-! ### The mesh of an automaton -/

namespace Automaton

variable {A : Automaton} {added : Nat → List (Symbol × Nat)}

/-- The edges that leave a reachable state, in the order in which the states were found. -/
def discovered (A : Automaton) : List Transition := A.layers.flatten.flatMap A.arena.transitionsFrom

/-- The edges with those to final states behind the others. -/
def finalLast (A : Automaton) (edges : List Transition) : List Transition :=
  edges.filter (fun t => !A.arena.isFinal t.target) ++ edges.filter fun t => A.arena.isFinal t.target

theorem finalLast_perm (A : Automaton) (edges : List Transition) : (A.finalLast edges).Perm edges :=
  List.perm_append_comm.trans (List.filter_append_perm _ edges)

theorem discovered_perm (A : Automaton) : A.discovered.Perm A.transitions := by
  rw [transitions_eq_flatMap_sources]
  exact List.Perm.flatMap_right _ A.map_fst_sources_perm.symm

/-- The edges of a source come by symbol, in the order in which they were added. -/
theorem discovered_eq_bySymbol (hclosed : A.arena.Closed) (hinitial : A.initial < A.size) (hmade : A.arena.MadeOf added) :
    A.discovered = (A.depths.map Prod.fst).flatMap fun q =>
      (Successors.bySymbol (added q)).map fun e => ⟨q, e.1, e.2⟩ := by
  rw [discovered, map_fst_depths]
  refine List.flatMap_congr fun q hq => ?_
  obtain ⟨n, hwalk⟩ := (mem_flatten_layers_iff hclosed hinitial).mp hq
  rw [Arena.transitionsFrom, hmade.edges_eq (Arena.lt_size_of_walk hclosed hwalk hinitial)]

theorem meshEdges_eq (A : Automaton) : A.meshEdges = A.discovered.map A.edgeLine := by
  rw [meshEdges, discovered, List.map_flatMap]
  refine List.flatMap_congr fun q _ => ?_
  rw [Mesh.edgesFrom, Arena.transitionsFrom, List.map_map]
  exact List.map_congr_left fun edge _ => A.edge_eq_edgeLine ⟨q, edge.1, edge.2⟩

theorem meshLines_eq (h : ∀ t ∈ A.discovered, Text.Unbroken Text.isSeparator t.symbol) :
    Mesh.lines (Text.ofNat A.initial) A.meshEdges =
      Mesh.header (Text.ofNat A.initial) :: (A.finalLast A.discovered).map A.edgeLine := by
  have hedges : ∀ line ∈ A.meshEdges, Text.Unbroken Text.isSeparator line := by
    rw [meshEdges_eq, List.forall_mem_map]
    exact fun t ht => unbroken_edgeLine (h t ht)
  rw [Mesh.lines_of_forall_unbroken hedges, meshEdges_eq, List.filter_map, List.filter_map, finalLast, List.map_append]
  simp only [Function.comp_def, arrow_isSuffixOf_edgeLine]

/-- Cutting the printed mesh gives its lines back. -/
theorem printedLines_mesh (h : ∀ t ∈ A.discovered, Text.Unbroken Text.isSeparator t.symbol) :
    Text.printedLines A.mesh = Mesh.lines (Text.ofNat A.initial) A.meshEdges := by
  refine Text.linesWith_unlines ?_
  rw [meshLines_eq h, List.forall_mem_cons, List.forall_mem_map]
  refine ⟨Mesh.unbroken_header A.initial, fun t ht => ?_⟩
  exact unbroken_edgeLine (h t ((A.finalLast_perm _).mem_iff.mp ht))

/-- **The mesh shows the transitions.** If no symbol on an edge that can be reached holds a character at which lines end,
the mesh is a header and a line for every transition. Those to final states come behind the others; otherwise the sources
stand in the order in which they were found, and the edges of a source come by symbol, in the order in which they were
added. An assembly of numbered states has the mesh of the automaton that has these states alone. -/
theorem mesh_shows_transitions :
    (∀ (A : Automaton) (added : Nat → List (Symbol × Nat)), A.arena.Closed → A.initial < A.size → A.arena.MadeOf added →
      (∀ q c r, (∃ n, A.arena.graph.Walk A.initial n q) → (c, r) ∈ added q → Text.Unbroken Text.isSeparator c) →
      ∃ edges : List Transition,
        edges = (A.depths.map Prod.fst).flatMap (fun q =>
            (Successors.bySymbol (added q)).map fun e => ⟨q, e.1, e.2⟩) ∧
          (A.finalLast edges).Perm A.transitions ∧
          A.mesh = Text.unlines (Mesh.header (Text.ofNat A.initial) :: (A.finalLast edges).map A.edgeLine) ∧
          Text.printedLines A.mesh = Mesh.header (Text.ofNat A.initial) :: (A.finalLast edges).map A.edgeLine) ∧
      ∀ (ws : Workspace) (a : Assembly) (added : Nat → List (Symbol × Nat)), a.Placed ws → ws.arena.MadeOf added →
        (a.compact ws).arena.Closed ∧
          (a.compact ws).initial < (a.compact ws).size ∧
          (a.compact ws).arena.MadeOf (fun i => (added (a.place i)).map fun (c, r) => (c, Assembly.position ws r)) ∧
          (a.profile ws).mesh = (a.compact ws).mesh := by
  refine ⟨?_, ?_⟩
  · intro A added hclosed hinitial hmade hsymbols
    have hdiscovered : ∀ t ∈ A.discovered, Text.Unbroken Text.isSeparator t.symbol := by
      intro t ht
      obtain ⟨q, hq, ht⟩ := List.mem_flatMap.mp ht
      obtain ⟨n, hwalk⟩ := (mem_flatten_layers_iff hclosed hinitial).mp hq
      obtain ⟨edge, hedge, rfl⟩ := List.mem_map.mp ht
      have hadded := (hmade.edges_perm (Arena.lt_size_of_walk hclosed hwalk hinitial)).mem_iff.mp hedge
      exact hsymbols q edge.1 edge.2 ⟨n, hwalk⟩ hadded
    refine ⟨A.discovered, discovered_eq_bySymbol hclosed hinitial hmade, ?_, ?_, ?_⟩
    · exact (A.finalLast_perm _).trans A.discovered_perm
    · rw [mesh, meshLines_eq hdiscovered]
    · rw [printedLines_mesh hdiscovered, meshLines_eq hdiscovered]
  · intro ws a added hplaced hmade
    exact ⟨hplaced.closed_compact, hplaced.initial_compact_lt, Assembly.madeOf_compact hmade hplaced.own_lt,
      hplaced.mesh_eq⟩

/-- A symbol is an arrow and another one looks like a target, edges run side by side, and the state whose edge would break
its line cannot be reached. The states of an assembly need not stand in front of others. -/
theorem mesh_shows_transitions_arrow :
    let ts : List Transition :=
      [⟨0, ['b'], 2⟩, ⟨0, ['-', '-', '>'], 1⟩, ⟨0, [], 1⟩, ⟨0, ['b'], 2⟩, ⟨2, ['(', '1', ')'], 0⟩, ⟨3, ['\n'], 0⟩]
    let A : Automaton := ⟨.ofTransitions 4 ts 2, 0, 2⟩
    let ws : Workspace := ⟨#[1, 7, 0], .ofTransitions 3 [⟨2, ['a'], 0⟩, ⟨2, [], 2⟩, ⟨2, ['a'], 0⟩] 0⟩
    let a : Assembly := ⟨[2, 0], 2, 0⟩
    A.arena.Closed ∧ A.initial < A.size ∧ A.arena.MadeOf (Transition.leaving ts) ∧
      (∀ q c r, (∃ n, A.arena.graph.Walk A.initial n q) → (c, r) ∈ Transition.leaving ts q →
        Text.Unbroken Text.isSeparator c) ∧
      (∃ edges, (A.finalLast edges).Perm A.transitions ∧
        A.mesh = Text.unlines (Mesh.header (Text.ofNat A.initial) :: (A.finalLast edges).map A.edgeLine)) ∧
      A.edgeLine ⟨0, ['-', '-', '>'], 1⟩ = "(0) --> (1)".toList ∧ A.edgeLine ⟨0, ['b'], 2⟩ = "(0) b (2) -->".toList ∧
      a.Placed ws ∧ (a.profile ws).mesh = (a.compact ws).mesh := by
  intro ts A ws a
  have hclosed : A.arena.Closed := by decide
  have hinitial : A.initial < A.size := by decide
  have hmade : A.arena.MadeOf (Transition.leaving ts) := Arena.madeOf_ofTransitions 4 ts 2
  have hinto : ∀ p < A.size, 3 ∉ A.arena.targets p := by decide
  have hunbroken : ∀ q < A.size, q ≠ 3 → ∀ e ∈ Transition.leaving ts q, Text.Unbroken Text.isSeparator e.1 := by
    decide
  have hsymbols : ∀ q c r, (∃ n, A.arena.graph.Walk A.initial n q) → (c, r) ∈ Transition.leaving ts q →
      Text.Unbroken Text.isSeparator c := by
    rintro q c r ⟨n, hwalk⟩ hedge
    have hlt : q < A.size := Arena.lt_size_of_walk hclosed hwalk hinitial
    refine hunbroken q hlt ?_ (c, r) hedge
    rintro rfl
    exact absurd (Arena.eq_of_walk hinto hwalk) (by decide)
  obtain ⟨edges, -, hperm, hmesh, -⟩ := mesh_shows_transitions.1 A _ hclosed hinitial hmade hsymbols
  have hplaced : a.Placed ws := by
    refine ⟨?_, ?_, ?_, ?_, ?_⟩ <;> decide
  have hassembled := mesh_shows_transitions.2 ws a _ hplaced (Arena.madeOf_ofTransitions 3 _ 0)
  exact ⟨hclosed, hinitial, hmade, hsymbols, ⟨edges, hperm, hmesh⟩, by decide, by decide, hplaced, hassembled.2.2.2⟩

end Automaton
end PatternAutomata
