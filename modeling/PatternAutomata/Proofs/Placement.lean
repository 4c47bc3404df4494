import PatternAutomata.Proofs.Path
import PatternAutomata.Proofs.Search
import PatternAutomata.Proofs.Successors
import PatternAutomata.Session.Assembly

/-!
# Assemblies of numbered states

An assembly whose own states are labelled by their positions, and are not left by edges, is shown as the automaton
that has these states alone, each at its position: its layers, transitions and mesh are the same, wherever the states
lie in the workspace (`Assembly.profile_eq_compact`). What holds of all automatons holds of such assemblies too.

The search goes by labels in one case and by identifiers in the other. It finds the same nodes in the same order when
the nodes are given other names (`Search.layersBy_map`).
-/

namespace PatternAutomata

/-! ### Searches under renaming -/

namespace Search

section Renaming

variable {key place : Nat → Nat} {next next' : Nat → List Nat} {size size' : Nat} {marks marks' : Array Bool}
  {nodes seeds : List Nat}

/-- The free marks of the named nodes are those of the numbers that they are named for. -/
def Mirrors (key place : Nat → Nat) (size : Nat) (marks marks' : Array Bool) : Prop :=
  ∀ i < size, marks[key (place i)]? = some false ↔ marks'[i]? = some false

/-- Nodes below a bound have keys of their own. -/
def Apart (key place : Nat → Nat) (size : Nat) : Prop :=
  ∀ i < size, ∀ j < size, key (place i) = key (place j) → i = j

theorem Mirrors.setIfInBounds (h : Mirrors key place size marks marks') (hapart : Apart key place size) {node : Nat}
    (hnode : node < size) :
    Mirrors key place size (marks.setIfInBounds (key (place node)) true) (marks'.setIfInBounds node true) := by
  intro i hi
  rw [setIfInBounds_eq_some_false, setIfInBounds_eq_some_false, h i hi]
  refine and_congr_right fun _ => not_congr ⟨hapart i hi node hnode, ?_⟩
  rintro rfl
  rfl

/-- Among renamed nodes the same ones are fresh. -/
theorem visit_map (hapart : Apart key place size) (h : Mirrors key place size marks marks')
    (hnodes : ∀ i ∈ nodes, i < size) :
    (visit key marks (nodes.map place)).1 = (visit id marks' nodes).1.map place ∧
      Mirrors key place size (visit key marks (nodes.map place)).2 (visit id marks' nodes).2 := by
  induction nodes generalizing marks marks' with
  | nil => exact ⟨rfl, h⟩
  | cons node rest ih =>
    obtain ⟨hnode, hrest⟩ := List.forall_mem_cons.mp hnodes
    rw [List.map_cons, visit, visit]
    simp only [id_eq]
    by_cases hfree : marks'[node]? = some false
    · obtain ⟨hfresh, hmirrors⟩ := ih (h.setIfInBounds hapart hnode) hrest
      rw [if_pos ((h node hnode).mpr hfree), if_pos hfree]
      exact ⟨congrArg (List.cons (place node)) hfresh, hmirrors⟩
    · rw [if_neg fun hmark => hfree ((h node hnode).mp hmark), if_neg hfree]
      exact ih h hrest

theorem layersFrom_map (hapart : Apart key place size) (hnext : ∀ i < size, next (place i) = (next' i).map place)
    (hbound : ∀ i < size, ∀ j ∈ next' i, j < size) (h : Mirrors key place size marks marks')
    (hnodes : ∀ i ∈ nodes, i < size) :
    layersFrom key next marks (nodes.map place) =
      (layersFrom id next' marks' nodes).map fun layer => layer.map place := by
  fun_induction layersFrom id next' marks' nodes generalizing marks with
  | case1 marks' => rw [List.map_nil, layersFrom, List.map_nil]
  | case2 marks' node rest found =>
    rename_i ih
    have hnexts : ∀ j ∈ (node :: rest).flatMap next', j < size := by
      intro j hj
      obtain ⟨i, hi, hj⟩ := List.mem_flatMap.mp hj
      exact hbound i (hnodes i hi) j hj
    have hmap : ((node :: rest).map place).flatMap next = ((node :: rest).flatMap next').map place := by
      rw [List.flatMap_map, List.map_flatMap]
      exact List.flatMap_congr fun i hi => hnext i (hnodes i hi)
    obtain ⟨hfresh, hmirrors⟩ := visit_map hapart h hnexts
    have hfound : ∀ i ∈ found.1, i < size := fun i hi => hnexts i (mem_visit.mp hi).1
    rw [List.map_cons, layersFrom, ← List.map_cons, hmap, hfresh, ih hmirrors hfound]
    rfl

/-- A search finds the same nodes in the same order when they are named differently. -/
theorem layersBy_map (hapart : Apart key place size) (hkey : ∀ i < size, key (place i) < size')
    (hnext : ∀ i < size, next (place i) = (next' i).map place) (hbound : ∀ i < size, ∀ j ∈ next' i, j < size)
    (hseeds : ∀ i ∈ seeds, i < size) :
    layersBy key next size' (seeds.map place) = (layers next' size seeds).map fun layer => layer.map place := by
  have hfree : Mirrors key place size (.replicate size' false) (.replicate size false) := by
    intro i hi
    rw [Array.getElem?_replicate, Array.getElem?_replicate, if_pos (hkey i hi), if_pos hi]
  obtain ⟨hfresh, hmirrors⟩ := visit_map hapart hfree hseeds
  have hfound : ∀ i ∈ (visit id (.replicate size false) seeds).1, i < size := fun i hi => hseeds i (mem_visit.mp hi).1
  rw [layersBy, hfresh]
  exact layersFrom_map hapart hnext hbound hmirrors hfound

end Renaming

end Search

/-! ### Tables under renaming -/

namespace Successors

/-- The table with the targets renamed. -/
def rename (f : Nat → Nat) (table : Successors) : Successors where
  rows := table.rows.map fun (symbol, targets) => (symbol, targets.map f)
  nodup_symbols := by
    rw [List.map_map]
    exact table.nodup_symbols

variable (f : Nat → Nat) (table : Successors)

theorem symbols_rename : (table.rename f).symbols = table.symbols := by
  unfold symbols rename
  rw [List.map_map]
  rfl

theorem edges_rename : (table.rename f).edges = table.edges.map fun (symbol, target) => (symbol, f target) := by
  unfold edges rename
  rw [List.flatMap_map, List.map_flatMap]
  simp only [List.map_map, Function.comp_def]

theorem targets_rename : (table.rename f).targets = table.targets.map f := by
  unfold targets rename
  rw [List.flatMap_map, List.map_flatMap]

theorem rename_add (symbol : Symbol) (target : Nat) :
    (table.add symbol target).rename f = (table.rename f).add symbol (f target) := by
  have hrows : ∀ rows : List (Symbol × List Nat),
      (insertInto symbol target rows).map (fun (s, targets) => (s, targets.map f)) =
        insertInto symbol (f target) (rows.map fun (s, targets) => (s, targets.map f)) := by
    intro rows
    induction rows with
    | nil => rfl
    | cons row rest ih =>
      rw [insertInto, List.map_cons, insertInto]
      split
      · simp only [List.map_cons, List.map_append, List.map_nil]
      · rw [List.map_cons, ih]
  simp only [rename, add, hrows]

/-- Tables of renamed edges are renamed tables. -/
theorem ofEdges_map (edges : List (Symbol × Nat)) :
    ofEdges (edges.map fun (symbol, target) => (symbol, f target)) = (ofEdges edges).rename f := by
  induction edges using List.reverseRecOn with
  | nil => rfl
  | append_singleton edges edge ih =>
    rw [List.map_append, List.map_singleton, ofEdges_append_singleton, ofEdges_append_singleton, ih, rename_add]

end Successors

/-! ### Assemblies -/

namespace Assembly

variable {ws : Workspace} {a : Assembly} {q i : Nat}

/-- The own states are labelled by their positions, the initial state is one of them, and no edge leads out of them.
-/
structure Placed (ws : Workspace) (a : Assembly) : Prop where
  size_labels : ws.labels.size = ws.size
  own_lt : ∀ q ∈ a.own, q < ws.size
  label_own : ∀ i (h : i < a.own.length), ws.label a.own[i] = i
  initial_mem : a.initial ∈ a.own
  target_mem : ∀ q ∈ a.own, ∀ r ∈ ws.arena.targets q, r ∈ a.own

/-- The position that the label of a state names. -/
def position (ws : Workspace) (q : Nat) : Nat := (ws.label q).toNat

/-- The own state at a position. -/
def place (a : Assembly) (i : Nat) : Nat := a.own.getD i 0

/-- The automaton of the own states alone, each at its position. -/
def compact (ws : Workspace) (a : Assembly) : Automaton where
  arena := (a.own.map fun q =>
    { isFinal := ws.arena.isFinal q, successors := (ws.arena.state q).successors.rename (position ws) }).toArray
  initial := position ws a.initial
  final := position ws a.final

theorem size_compact (ws : Workspace) (a : Assembly) : (a.compact ws).size = a.own.length := by
  unfold compact Automaton.size
  rw [List.size_toArray, List.length_map]

theorem place_eq (h : i < a.own.length) : a.place i = a.own[i] := by
  unfold place
  rw [List.getD_eq_getElem?_getD, List.getElem?_eq_getElem h, Option.getD_some]

theorem place_mem (h : i < a.own.length) : a.place i ∈ a.own := place_eq h ▸ List.getElem_mem h

theorem exists_place (hq : q ∈ a.own) : ∃ i < a.own.length, a.place i = q := by
  obtain ⟨i, hi, rfl⟩ := List.mem_iff_getElem.mp hq
  exact ⟨i, hi, place_eq hi⟩

theorem state_compact (h : i < a.own.length) :
    (a.compact ws).arena.state i =
      { isFinal := ws.arena.isFinal (a.place i)
        successors := (ws.arena.state (a.place i)).successors.rename (position ws) } := by
  rw [Arena.state_eq, compact, place_eq h, List.getElem?_toArray, List.getElem?_map, List.getElem?_eq_getElem h]
  rfl

/-- The tables of the automaton are made of the edges that were added to the own states. -/
theorem madeOf_compact {added : Nat → List (Symbol × Nat)} (hmade : ws.arena.MadeOf added)
    (hown : ∀ q ∈ a.own, q < ws.size) :
    (a.compact ws).arena.MadeOf fun i =>
      (added (a.place i)).map fun (symbol, target) => (symbol, position ws target) := by
  intro i hi
  have hlt : i < a.own.length := size_compact ws a ▸ hi
  rw [state_compact hlt, hmade _ (hown _ (place_mem hlt)), Successors.ofEdges_map]

theorem edges_compact (h : i < a.own.length) :
    (a.compact ws).arena.edges i =
      (ws.arena.edges (a.place i)).map fun (symbol, target) => (symbol, position ws target) := by
  rw [Arena.edges, state_compact h, Successors.edges_rename, Arena.edges]

theorem targets_compact (h : i < a.own.length) :
    (a.compact ws).arena.targets i = (ws.arena.targets (a.place i)).map (position ws) := by
  rw [Arena.targets, state_compact h, Successors.targets_rename, Arena.targets]

theorem lt_of_mem_layer {layer : List Nat} (hlayer : layer ∈ (a.compact ws).layers) (hi : i ∈ layer) :
    i < a.own.length := by
  have hmem : i ∈ (a.compact ws).layers.flatten := List.mem_flatten.mpr ⟨layer, hlayer, hi⟩
  obtain ⟨n, hn⟩ := Search.mem_flatten_layers_iff.mp hmem
  rw [← size_compact ws a]
  exact hn.lt_size

theorem at?_cast (hi : i < a.own.length) : a.at? i = some (a.place i) := by
  have hplace : placeOf? a.own.length (i : Int) = some i := by
    have hnonneg : ¬ (i : Int) < 0 := by omega
    simp [placeOf?, hnonneg, hi]
  rw [at?, hplace, Option.bind_some, List.getElem?_eq_getElem hi, place_eq hi]

namespace Placed

variable (h : a.Placed ws)
include h

theorem label_place (hi : i < a.own.length) : ws.label (a.place i) = i := by rw [place_eq hi, h.label_own i hi]

theorem position_place (hi : i < a.own.length) : position ws (a.place i) = i := by
  rw [position, h.label_place hi, Int.toNat_natCast]

theorem position_lt (hq : q ∈ a.own) : position ws q < a.own.length := by
  obtain ⟨i, hi, rfl⟩ := exists_place hq
  rwa [h.position_place hi]

theorem place_position (hq : q ∈ a.own) : a.place (position ws q) = q := by
  obtain ⟨i, hi, rfl⟩ := exists_place hq
  rw [h.position_place hi]

theorem label_own_eq (hq : q ∈ a.own) : ws.label q = position ws q := by
  obtain ⟨i, hi, rfl⟩ := exists_place hq
  rw [h.position_place hi, h.label_place hi]

theorem target_mem_of_edge {c : Symbol} (hq : q ∈ a.own) {r : Nat} (hr : (c, r) ∈ ws.arena.edges q) : r ∈ a.own :=
  h.target_mem q hq r (Successors.mem_targets.mpr ⟨c, hr⟩)

theorem targets_lt (hi : i < a.own.length) {j : Nat} (hj : j ∈ (a.compact ws).arena.targets i) : j < a.own.length := by
  rw [targets_compact hi] at hj
  obtain ⟨r, hr, rfl⟩ := List.mem_map.mp hj
  exact h.position_lt (h.target_mem _ (place_mem hi) r hr)

/-- The key of an own state leads back to its label. -/
theorem getElem?_firstAlike_place (hi : i < a.own.length) : ws.labels[ws.firstAlike (a.place i)]? = some (i : Int) := by
  have hlt : a.place i < ws.labels.size := h.size_labels ▸ h.own_lt _ (place_mem hi)
  have hlabel : ws.labels[a.place i] = i := by
    rw [← h.label_place hi, Workspace.label, Array.getD_eq_getD_getElem?, Array.getElem?_eq_getElem hlt, Option.getD_some]
  have hkey : ws.labels.idxOf (i : Int) < ws.labels.size :=
    Array.idxOf_lt_size_iff.mpr (hlabel ▸ Array.getElem_mem hlt)
  have hself : (ws.labels[ws.labels.idxOf (i : Int)] == (i : Int)) = true :=
    @Array.findIdx_getElem _ (· == (i : Int)) ws.labels hkey
  rw [Workspace.firstAlike, h.label_place hi, Array.getElem?_eq_getElem hkey, eq_of_beq hself]

theorem firstAlike_place_lt (hi : i < a.own.length) : ws.firstAlike (a.place i) < ws.size := by
  obtain ⟨hlt, -⟩ := Array.getElem?_eq_some_iff.mp (h.getElem?_firstAlike_place hi)
  exact h.size_labels ▸ hlt

/-- States at different positions have different keys. -/
theorem apart_place : Search.Apart ws.firstAlike a.place a.own.length := by
  intro i hi j hj heq
  have hsame := h.getElem?_firstAlike_place hi
  rw [heq, h.getElem?_firstAlike_place hj] at hsame
  exact (Int.ofNat_inj.mp (Option.some.inj hsame)).symm

theorem targets_place (hi : i < a.own.length) :
    ws.arena.targets (a.place i) = ((a.compact ws).arena.targets i).map a.place := by
  rw [targets_compact hi, List.map_map]
  refine (List.map_id _).symm.trans (List.map_congr_left fun r hr => ?_)
  exact (h.place_position (h.target_mem _ (place_mem hi) r hr)).symm

theorem closed_compact : (a.compact ws).arena.Closed := by
  intro s hs target htarget
  obtain ⟨i, hi, rfl⟩ := Array.getElem_of_mem hs
  have hlt : i < a.own.length := size_compact ws a ▸ hi
  have hstate : (a.compact ws).arena.state i = (a.compact ws).arena[i] := by
    rw [Arena.state_eq, Array.getElem?_eq_getElem hi, Option.getD_some]
  have hmem : target ∈ (a.compact ws).arena.targets i := by
    rw [Arena.targets, hstate]
    exact htarget
  calc target < a.own.length := h.targets_lt hlt hmem
    _ = (a.compact ws).arena.size := (size_compact ws a).symm

theorem initial_compact_lt : (a.compact ws).initial < (a.compact ws).size := by
  rw [size_compact]
  exact h.position_lt h.initial_mem

/-- The search for the assembly goes through the same positions as that for the automaton of its states. -/
theorem layers_eq : a.layers ws = (a.compact ws).layers.map fun layer => layer.map a.place := by
  have hinitial : [a.initial] = [(a.compact ws).initial].map a.place :=
    congrArg (fun q => [q]) (h.place_position h.initial_mem).symm
  have hseeds : ∀ i ∈ [(a.compact ws).initial], i < a.own.length := by
    intro i hi
    rw [List.mem_singleton.mp hi]
    exact h.position_lt h.initial_mem
  have hbound : ∀ i < a.own.length, ∀ j ∈ (a.compact ws).arena.targets i, j < a.own.length := fun i hi j hj =>
    h.targets_lt hi hj
  rw [layers, Automaton.layers, size_compact, hinitial]
  exact Search.layersBy_map h.apart_place (fun i => h.firstAlike_place_lt) (fun i => h.targets_place) hbound hseeds

/-! #### What is shown -/

theorem map_label_layer {layer : List Nat} (hlayer : layer ∈ (a.compact ws).layers) :
    (layer.map a.place).map ws.label = layer.map Nat.cast := by
  rw [List.map_map]
  exact List.map_congr_left fun i hi => h.label_place (lt_of_mem_layer hlayer hi)

theorem depths_eq : (a.profile ws).depths = (a.compact ws).profile.depths := by
  have hlayer : ∀ x ∈ (a.compact ws).layers.zipIdx,
      ((x.1.map a.place).map fun q => (ws.label q, x.2)) =
        (x.1.map fun q => (q, x.2)).map fun y => ((y.1 : Int), y.2) := by
    intro x hx
    rw [List.map_map, List.map_map]
    refine List.map_congr_left fun i hi => ?_
    exact congrArg (fun label => (label, x.2)) (h.label_place (lt_of_mem_layer (List.fst_mem_of_mem_zipIdx hx) hi))
  simp only [profile, Automaton.profile, Automaton.depths, h.layers_eq, List.zipIdx_map, List.flatMap_map,
    List.map_flatMap]
  exact List.flatMap_congr hlayer

theorem transitionsFrom_eq (hi : i < a.own.length) :
    a.transitionsFrom ws i =
      ((a.compact ws).arena.transitionsFrom i).map fun t => ((t.source : Int), t.symbol, (t.target : Int)) := by
  rw [transitionsFrom, at?_cast hi, Arena.transitionsFrom, edges_compact hi, List.map_map, List.map_map]
  refine List.map_congr_left fun edge hedge => ?_
  have hlabel : ws.label edge.2 = position ws edge.2 := h.label_own_eq (h.target_mem_of_edge (place_mem hi) hedge)
  exact congrArg (fun label => ((i : Int), edge.1, label)) hlabel

theorem transitions_eq : (a.profile ws).transitions = (a.compact ws).profile.transitions := by
  have hsorted : ∀ layer : List Nat,
      (layer.map Nat.cast : List Int).mergeSort (· ≤ ·) = (layer.mergeSort (· ≤ ·)).map Nat.cast := by
    intro layer
    exact (List.map_mergeSort fun i _ j _ => by simp).symm
  simp only [profile, Automaton.profile, transitions, Automaton.transitions, h.layers_eq, List.flatMap_map,
    List.map_flatMap]
  refine List.flatMap_congr fun layer hlayer => ?_
  rw [h.map_label_layer hlayer, hsorted, List.flatMap_map]
  refine List.flatMap_congr fun i hi => ?_
  exact h.transitionsFrom_eq (lt_of_mem_layer hlayer (List.mem_mergeSort.mp hi))

theorem isFinal_compact (hq : q ∈ a.own) : (a.compact ws).arena.isFinal (position ws q) = ws.arena.isFinal q := by
  rw [Arena.isFinal, state_compact (h.position_lt hq), h.place_position hq]

theorem labelText_eq (hq : q ∈ a.own) : ws.labelText q = Text.ofNat (position ws q) := by
  rw [Workspace.labelText, h.label_own_eq hq]
  rfl

theorem edgeLines_eq (hi : i < a.own.length) :
    ws.edgeLines (a.place i) = Mesh.edgesFrom Text.ofNat (a.compact ws).arena i := by
  rw [Workspace.edgeLines, Mesh.edgesFrom, Mesh.edgesFrom, edges_compact hi, List.map_map]
  refine List.map_congr_left fun edge hedge => ?_
  have hmem : edge.2 ∈ a.own := h.target_mem_of_edge (place_mem hi) hedge
  simp only [Function.comp_apply, h.labelText_eq (place_mem hi), h.position_place hi, h.labelText_eq hmem,
    h.isFinal_compact hmem]

theorem mesh_eq : a.mesh ws = (a.compact ws).mesh := by
  have hsources : (a.layers ws).flatten.filterMap (fun q => a.at? (ws.label q)) = (a.layers ws).flatten := by
    refine (List.filterMap_congr fun q hq => ?_).trans List.filterMap_some
    rw [h.layers_eq] at hq
    obtain ⟨_, hmem, hq⟩ := List.mem_flatten.mp hq
    obtain ⟨layer, hlayer, rfl⟩ := List.mem_map.mp hmem
    obtain ⟨i, hi, rfl⟩ := List.mem_map.mp hq
    have hlt := lt_of_mem_layer hlayer hi
    rw [h.label_place hlt, at?_cast hlt]
  have hedges : (a.layers ws).flatten.flatMap ws.edgeLines = (a.compact ws).meshEdges := by
    rw [h.layers_eq, ← List.map_flatten, List.flatMap_map]
    refine List.flatMap_congr fun i hi => ?_
    obtain ⟨layer, hlayer, hi⟩ := List.mem_flatten.mp hi
    exact h.edgeLines_eq (lt_of_mem_layer hlayer hi)
  rw [mesh, hsources, hedges, h.labelText_eq h.initial_mem, Automaton.mesh]
  rfl

theorem describe_eq : a.describe ws = (a.compact ws).describe := by
  rw [describe, Automaton.describe, size_compact, h.labelText_eq h.initial_mem]
  rfl

theorem describe_place (hi : i < a.own.length) :
    ws.describe (a.place i) = Mesh.describeState (Text.ofNat i) ((a.compact ws).arena.state i) := by
  have hsymbols :
      ((a.compact ws).arena.state i).successors.symbols = (ws.arena.state (a.place i)).successors.symbols := by
    rw [state_compact hi, Successors.symbols_rename]
  unfold Workspace.describe Mesh.describeState
  rw [h.labelText_eq (place_mem hi), h.position_place hi, hsymbols]

/-- The profile of an own state is that of its position. -/
theorem stateProfile_place (hi : i < a.own.length) :
    (⟨ws.label (a.place i), ws.arena.isFinal (a.place i), ws.describe (a.place i)⟩ : StateProfile) =
      (a.compact ws).stateProfile i := by
  have hfinal : (a.compact ws).arena.isFinal i = ws.arena.isFinal (a.place i) := by
    rw [← h.isFinal_compact (place_mem hi), h.position_place hi]
  rw [Automaton.stateProfile, h.label_place hi, h.describe_place hi, hfinal]

omit h in
theorem map_place_range (a : Assembly) : (List.range a.own.length).map a.place = a.own := by
  refine List.ext_getElem (by rw [List.length_map, List.length_range]) fun i _ hi => ?_
  rw [List.getElem_map, List.getElem_range, place_eq hi]

theorem states_eq : (a.profile ws).states = (a.compact ws).profile.states := by
  calc (a.profile ws).states
      = a.own.map fun q => ⟨ws.label q, ws.arena.isFinal q, ws.describe q⟩ := rfl
    _ = ((List.range a.own.length).map a.place).map fun q => ⟨ws.label q, ws.arena.isFinal q, ws.describe q⟩ := by
        rw [map_place_range]
    _ = (List.range a.own.length).map (a.compact ws).stateProfile := by
        rw [List.map_map]
        exact List.map_congr_left fun i hi => h.stateProfile_place (List.mem_range.mp hi)
    _ = (List.range (a.compact ws).size).map (a.compact ws).stateProfile := by rw [size_compact]

end Placed

/-- **An assembly of numbered states is shown as the automaton that has these states alone.** Only the label of the
final state is free, since nothing else is said of the final state. -/
theorem profile_eq_compact (h : a.Placed ws) :
    a.profile ws = { (a.compact ws).profile with final := ws.label a.final } := by
  have hstates := h.states_eq
  have htransitions := h.transitions_eq
  have hdepths := h.depths_eq
  simp only [profile, Automaton.profile] at hstates htransitions hdepths
  simp only [profile, Automaton.profile, Profile.mk.injEq]
  exact ⟨h.describe_eq, (size_compact ws a).symm, h.label_own_eq h.initial_mem, trivial, hstates, htransitions, hdepths,
    h.mesh_eq⟩

end Assembly
end PatternAutomata
