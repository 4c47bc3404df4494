import Mathlib.Data.List.Count
import Mathlib.Data.List.Sort
import PatternAutomata.Proofs.Distance
import PatternAutomata.Proofs.Successors

/-!
# Transitions are the edges that can be reached

The transitions of an automaton are the edges that leave states that can be reached, each as often as it was added.
They are listed by distance and identifier of their source, and otherwise as the table of the source has them
(`Automaton.transitions_eq_edges`).

* `Automaton.sources` — the states that can be reached in this order, which is strictly increasing
  (`pairwise_sources`);
* `Automaton.transitions_eq_flatMap_sources` — the transitions are listed source by source;
* `Automaton.transitions_eq_bySymbol` — and those of a source by symbol;
* `Arena.count_flatMap_transitionsFrom` — source by source no edge is lost or doubled.
-/

namespace PatternAutomata

namespace Arena

variable {arena : Arena}

theorem madeOf_ofTransitions (size : Nat) (ts : List Transition) (final : Nat) :
    (ofTransitions size ts final).MadeOf (Transition.leaving ts) := by
  intro q hq
  rw [size_ofTransitions] at hq
  rw [state_ofTransitions hq]

theorem count_transitionsFrom (arena : Arena) (q : Nat) (t : Transition) :
    (arena.transitionsFrom q).count t = if t.source = q then (arena.edges q).count (t.symbol, t.target) else 0 := by
  split
  next h =>
    subst h
    have hinjective : Function.Injective fun edge : Symbol × Nat => (⟨t.source, edge.1, edge.2⟩ : Transition) := by
      rintro ⟨c, r⟩ ⟨c', r'⟩ heq
      cases heq
      rfl
    exact List.count_map_of_injective (arena.edges t.source) _ hinjective (t.symbol, t.target)
  next h =>
    rw [List.count_eq_zero]
    rintro hmem
    obtain ⟨edge, -, rfl⟩ := List.mem_map.mp hmem
    exact h rfl

/-- Listed source by source, every edge is there as often as in the table of its source. -/
theorem count_flatMap_transitionsFrom {qs : List Nat} (hqs : qs.Nodup) (t : Transition) :
    (qs.flatMap arena.transitionsFrom).count t =
      if t.source ∈ qs then (arena.edges t.source).count (t.symbol, t.target) else 0 := by
  induction qs with
  | nil => rfl
  | cons q qs ih =>
    obtain ⟨hq, hqs⟩ := List.nodup_cons.mp hqs
    rw [List.flatMap_cons, List.count_append, count_transitionsFrom, ih hqs]
    by_cases h : t.source = q
    · have hmem : t.source ∉ qs := h ▸ hq
      rw [if_pos h, if_neg hmem, if_pos (h ▸ List.mem_cons_self), h, Nat.add_zero]
    · simp only [h, if_false, Nat.zero_add, List.mem_cons, false_or]

end Arena

/-! ### Sources in order -/

namespace Automaton

open Search

variable {A : Automaton} {added : Nat → List (Symbol × Nat)} {q d : Nat}

/-- The states that can be reached by distance and identifier, each with its distance. -/
def sources (A : Automaton) : List (Nat × Nat) := byDepth (A.layers.map fun layer => layer.mergeSort (· ≤ ·))

theorem mem_sources_iff (hclosed : A.arena.Closed) (hinitial : A.initial < A.size) :
    (q, d) ∈ A.sources ↔ A.arena.graph.IsDistance A.initial q d := by
  rw [sources, mem_byDepth_iff, ← mem_layers_iff hclosed hinitial, List.getElem?_map]
  cases A.layers[d]? with
  | none => rfl
  | some layer => exact List.mem_mergeSort

theorem pairwise_sources (A : Automaton) :
    A.sources.Pairwise fun a b => a.2 < b.2 ∨ a.2 = b.2 ∧ a.1 < b.1 := by
  refine pairwise_byDepth fun sorted hsorted => ?_
  obtain ⟨layer, hlayer, rfl⟩ := List.mem_map.mp hsorted
  have hnodup : layer.Nodup := (List.nodup_flatten.mp A.nodup_flatten_layers).1 layer hlayer
  have hle : (layer.mergeSort (· ≤ ·)).Pairwise (· ≤ ·) := List.pairwise_mergeSort' (· ≤ ·) layer
  have hne : (layer.mergeSort (· ≤ ·)).Nodup := (List.mergeSort_perm layer _).nodup_iff.mpr hnodup
  exact hle.imp₂ (fun _ _ => Nat.lt_of_le_of_ne) hne

theorem map_fst_sources (A : Automaton) :
    A.sources.map Prod.fst = A.layers.flatMap fun layer => layer.mergeSort (· ≤ ·) := by
  rw [sources, map_fst_byDepth, List.flatMap_def]

theorem map_fst_sources_perm (A : Automaton) : (A.sources.map Prod.fst).Perm A.layers.flatten := by
  rw [map_fst_sources, ← List.flatMap_id]
  exact List.Perm.flatMap_left _ fun layer _ => List.mergeSort_perm layer _

/-- The transitions are listed source by source. -/
theorem transitions_eq_flatMap_sources (A : Automaton) :
    A.transitions = (A.sources.map Prod.fst).flatMap A.arena.transitionsFrom := by
  rw [map_fst_sources, List.flatMap_assoc, transitions]

theorem mem_map_fst_sources_iff (hclosed : A.arena.Closed) (hinitial : A.initial < A.size) :
    q ∈ A.sources.map Prod.fst ↔ ∃ n, A.arena.graph.Walk A.initial n q :=
  A.map_fst_sources_perm.mem_iff.trans (mem_flatten_layers_iff hclosed hinitial)

theorem count_transitions (A : Automaton) (t : Transition) :
    A.transitions.count t =
      if t.source ∈ A.sources.map Prod.fst then (A.arena.edges t.source).count (t.symbol, t.target) else 0 := by
  have hnodup : (A.sources.map Prod.fst).Nodup := A.map_fst_sources_perm.nodup_iff.mpr A.nodup_flatten_layers
  rw [transitions_eq_flatMap_sources, Arena.count_flatMap_transitionsFrom hnodup]

theorem source_mem_of_mem_transitions {t : Transition} (h : t ∈ A.transitions) : t.source ∈ A.sources.map Prod.fst := by
  by_contra hsource
  have hpos : 0 < A.transitions.count t := List.count_pos_iff.mpr h
  rw [count_transitions, if_neg hsource] at hpos
  exact Nat.lt_irrefl 0 hpos

/-- The edges of a source come by symbol, in the order in which they were added. -/
theorem transitions_eq_bySymbol (hclosed : A.arena.Closed) (hinitial : A.initial < A.size) (hmade : A.arena.MadeOf added) :
    A.transitions = A.sources.flatMap fun a => (Successors.bySymbol (added a.1)).map fun e => ⟨a.1, e.1, e.2⟩ := by
  rw [transitions_eq_flatMap_sources, List.flatMap_map]
  refine List.flatMap_congr fun a ha => ?_
  obtain ⟨hwalk, -⟩ := (mem_sources_iff hclosed hinitial).mp ha
  rw [Arena.transitionsFrom, hmade.edges_eq (Arena.lt_size_of_walk hclosed hwalk hinitial)]

/-- Every edge of a state that can be reached is there as often as it was added. -/
theorem count_transitions_of_walk (hclosed : A.arena.Closed) (hinitial : A.initial < A.size)
    (hmade : A.arena.MadeOf added) (hwalk : ∃ n, A.arena.graph.Walk A.initial n q) (c : Symbol) (r : Nat) :
    A.transitions.count ⟨q, c, r⟩ = (added q).count (c, r) := by
  have hsource : q ∈ A.sources.map Prod.fst := (mem_map_fst_sources_iff hclosed hinitial).mpr hwalk
  obtain ⟨n, hwalk⟩ := hwalk
  have hlt : q < A.arena.size := Arena.lt_size_of_walk hclosed hwalk hinitial
  rw [count_transitions, if_pos hsource]
  exact (hmade.edges_perm hlt).count_eq (c, r)

/-- Where a way leads from the initial state to every state, all edges are listed. -/
theorem Normalized.transitions_perm (h : A.Normalized) :
    A.transitions.Perm ((List.range A.size).flatMap A.arena.transitionsFrom) := by
  rw [transitions_eq_flatMap_sources]
  exact List.Perm.flatMap_right _ (A.map_fst_sources_perm.trans h.flatten_layers_perm)

/-- **Transitions are the edges that can be reached.** They are listed source by source, where the pairs of the
distance and the identifier of a source increase. The edges of a source come by symbol, in the order in which they
were added. Every edge of a state that can be reached is there as often as it was added, and no other edge is there.
In the automaton of a list of tokens all edges are listed. An assembly of numbered states has the transitions of the
automaton that has these states alone. -/
theorem transitions_eq_edges :
    (∀ (A : Automaton) (added : Nat → List (Symbol × Nat)), A.arena.Closed → A.initial < A.size → A.arena.MadeOf added →
      (∃ order : List (Nat × Nat),
        (∀ q d, (q, d) ∈ order ↔ A.arena.graph.IsDistance A.initial q d) ∧
          order.Pairwise (fun a b => a.2 < b.2 ∨ a.2 = b.2 ∧ a.1 < b.1) ∧
          A.transitions = order.flatMap fun a => (Successors.bySymbol (added a.1)).map fun e => ⟨a.1, e.1, e.2⟩) ∧
        (∀ q c r, (∃ n, A.arena.graph.Walk A.initial n q) → A.transitions.count ⟨q, c, r⟩ = (added q).count (c, r)) ∧
        ∀ t ∈ A.transitions, ∃ n, A.arena.graph.Walk A.initial n t.source) ∧
      (∀ ts A, ofPostfix ts = .ok A → A.transitions.Perm ((List.range A.size).flatMap A.arena.transitionsFrom)) ∧
      ∀ (ws : Workspace) (a : Assembly) (added : Nat → List (Symbol × Nat)), a.Placed ws → ws.arena.MadeOf added →
        (a.compact ws).arena.Closed ∧
          (a.compact ws).initial < (a.compact ws).size ∧
          (a.compact ws).arena.MadeOf (fun i => (added (a.place i)).map fun (c, r) => (c, Assembly.position ws r)) ∧
          (a.profile ws).transitions =
            (a.compact ws).transitions.map fun t => ((t.source : Int), t.symbol, (t.target : Int)) := by
  refine ⟨?_, ?_, ?_⟩
  · intro A added hclosed hinitial hmade
    refine ⟨⟨A.sources, fun q d => mem_sources_iff hclosed hinitial, A.pairwise_sources, ?_⟩, ?_, ?_⟩
    · exact transitions_eq_bySymbol hclosed hinitial hmade
    · exact fun q c r hwalk => count_transitions_of_walk hclosed hinitial hmade hwalk c r
    · exact fun t ht => (mem_map_fst_sources_iff hclosed hinitial).mp (source_mem_of_mem_transitions ht)
  · intro ts A h
    obtain ⟨e, -, rfl⟩ := ofPostfix_eq_ok_iff.mp h
    exact e.normalized_automaton.transitions_perm
  · intro ws a added hplaced hmade
    exact ⟨hplaced.closed_compact, hplaced.initial_compact_lt, Assembly.madeOf_compact hmade hplaced.own_lt,
      hplaced.transitions_eq⟩

/-- Two edges run side by side, those of a symbol are not added one after the other, and no edge leads to the last
state. The states of an assembly need not stand in front of others. -/
theorem transitions_eq_edges_circle :
    let ts : List Transition :=
      [⟨0, ['b'], 2⟩, ⟨0, ['a'], 1⟩, ⟨0, ['b'], 1⟩, ⟨0, ['b'], 2⟩, ⟨2, [], 0⟩, ⟨3, ['a'], 0⟩]
    let A : Automaton := ⟨.ofTransitions 4 ts 2, 0, 2⟩
    let ws : Workspace := ⟨#[1, 7, 0], .ofTransitions 3 [⟨2, ['a'], 0⟩, ⟨2, [], 2⟩, ⟨2, ['a'], 0⟩] 0⟩
    let a : Assembly := ⟨[2, 0], 2, 0⟩
    A.arena.Closed ∧ A.initial < A.size ∧ A.arena.MadeOf (Transition.leaving ts) ∧
      A.transitions.count ⟨0, ['b'], 2⟩ = 2 ∧ ⟨3, ['a'], 0⟩ ∉ A.transitions ∧
      (∃ B, ofPostfix [.literal ['a'], .operator .star] = .ok B ∧
        B.transitions.Perm ((List.range B.size).flatMap B.arena.transitionsFrom)) ∧
      a.Placed ws ∧
      (a.profile ws).transitions =
        (a.compact ws).transitions.map fun t => ((t.source : Int), t.symbol, (t.target : Int)) := by
  intro ts A ws a
  have hclosed : A.arena.Closed := by decide
  have hinitial : A.initial < A.size := by decide
  have hmade : A.arena.MadeOf (Transition.leaving ts) := Arena.madeOf_ofTransitions 4 ts 2
  obtain ⟨-, hcount, hsource⟩ := transitions_eq_edges.1 A (Transition.leaving ts) hclosed hinitial hmade
  have htwice : A.transitions.count ⟨0, ['b'], 2⟩ = 2 := hcount 0 ['b'] 2 ⟨0, .refl⟩
  have hinto : ∀ p < A.size, 3 ∉ A.arena.targets p := by decide
  have hunreached : ¬ ∃ n, A.arena.graph.Walk A.initial n 3 := by
    rintro ⟨n, hwalk⟩
    exact absurd (Arena.eq_of_walk hinto hwalk) (by decide)
  obtain ⟨B, hB⟩ : ∃ B, ofPostfix [.literal ['a'], .operator .star] = .ok B := ⟨_, rfl⟩
  have hplaced : a.Placed ws := by
    refine ⟨?_, ?_, ?_, ?_, ?_⟩ <;> decide
  have hassembled := transitions_eq_edges.2.2 ws a _ hplaced (Arena.madeOf_ofTransitions 3 _ 0)
  exact ⟨hclosed, hinitial, hmade, htwice, fun h => hunreached (hsource _ h), ⟨B, hB, transitions_eq_edges.2.1 _ B hB⟩,
    hplaced, hassembled.2.2.2⟩

end Automaton
end PatternAutomata
