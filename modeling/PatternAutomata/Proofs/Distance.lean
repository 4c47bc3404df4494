import Mathlib.Order.Bounds.Defs
import PatternAutomata.Proofs.Layout
import PatternAutomata.Proofs.Placement

/-!
# Layers are distances

The depth of a state is the length of a shortest path to it from the initial state, along edges with any symbols.

* `Graph.Walk`, `Graph.IsDistance` — paths by their number of edges, and the least such number;
* `Arena.atDistance_targets_iff` — the distances of the search along all edges are those of the graph;
* `mem_byDepth_iff`, `pairwise_byDepth` — layers that are written out as a list of nodes with their depths;
* `Automaton.depths_eq_distances` — the depths of an automaton are its distances, in increasing order.
-/

namespace PatternAutomata

/-! ### Paths by length -/

namespace Graph

/-- The states are joined by a path with that number of edges, whatever their symbols are. -/
inductive Walk (G : Graph) (p : Nat) : Nat → Nat → Prop
  | refl : Walk G p 0 p
  | edge {n q r : Nat} {c : Symbol} : Walk G p n q → G q c r → Walk G p (n + 1) r

/-- The number of edges of a shortest path. -/
def IsDistance (G : Graph) (p q d : Nat) : Prop := IsLeast {n | G.Walk p n q} d

variable {G : Graph} {p q r d n : Nat} {w : Word}

theorem walk_zero_iff : G.Walk p 0 q ↔ q = p := by
  constructor
  · rintro ⟨⟩
    rfl
  · rintro rfl
    exact .refl

theorem walk_succ_iff : G.Walk p (n + 1) r ↔ ∃ q c, G.Walk p n q ∧ G q c r := by
  constructor
  · rintro (_ | ⟨hwalk, hedge⟩)
    exact ⟨_, _, hwalk, hedge⟩
  · rintro ⟨q, c, hwalk, hedge⟩
    exact .edge hwalk hedge

theorem Walk.of_path (hwalk : G.Walk p n q) (h : G.Path q w r) : ∃ m, G.Walk p m r := by
  induction h generalizing n with
  | refl q => exact ⟨n, hwalk⟩
  | epsilon hedge _ ih => exact ih (hwalk.edge hedge)
  | read hedge _ ih => exact ih (hwalk.edge hedge)

/-- A state that there is a way to is reached in some number of steps. -/
theorem exists_walk_iff : (∃ n, G.Walk p n q) ↔ G.Leads p q := by
  constructor
  · rintro ⟨n, hwalk⟩
    induction hwalk with
    | refl => exact .refl p
    | edge _ hedge ih => exact ih.trans (.of_edge hedge)
  · rintro ⟨w, -, hpath⟩
    exact Walk.refl.of_path hpath

end Graph

namespace Arena

variable {arena : Arena} {p q n d : Nat}

theorem mem_targets_iff : q ∈ arena.targets p ↔ ∃ c, arena.graph p c q := Successors.mem_targets

theorem lt_size_of_walk (hclosed : arena.Closed) (hwalk : arena.graph.Walk p n q) (hp : p < arena.size) :
    q < arena.size := by
  cases hwalk with
  | refl => exact hp
  | edge _ hedge => exact closed_iff.mp hclosed _ _ _ hedge

/-- Where no edge leads, there is no way from another state. -/
theorem eq_of_walk (hnone : ∀ r < arena.size, q ∉ arena.targets r) (hwalk : arena.graph.Walk p n q) : q = p := by
  cases hwalk with
  | refl => rfl
  | edge _ hedge => exact absurd (mem_targets_iff.mpr ⟨_, hedge⟩) (hnone _ (source_lt_of_graph hedge))

theorem reached_targets_iff (hclosed : arena.Closed) (hp : p < arena.size) :
    Search.Reached arena.targets arena.size [p] n q ↔ arena.graph.Walk p n q := by
  induction n generalizing q with
  | zero =>
    rw [Graph.walk_zero_iff, Search.Reached, List.mem_singleton]
    exact and_iff_left_of_imp fun hq => hq ▸ hp
  | succ n ih =>
    simp only [Search.Reached, ih, mem_targets_iff, Graph.walk_succ_iff]
    constructor
    · rintro ⟨r, hwalk, ⟨c, hedge⟩, -⟩
      exact ⟨r, c, hwalk, hedge⟩
    · rintro ⟨r, c, hwalk, hedge⟩
      exact ⟨r, hwalk, ⟨c, hedge⟩, closed_iff.mp hclosed r c q hedge⟩

/-- The distances of the search along all edges are those of the graph. -/
theorem atDistance_targets_iff (hclosed : arena.Closed) (hp : p < arena.size) :
    Search.AtDistance arena.targets arena.size [p] d q ↔ arena.graph.IsDistance p q d := by
  simp only [Search.AtDistance, reached_targets_iff hclosed hp]
  refine and_congr_right fun _ => ⟨fun hleast n hn => ?_, fun hleast n hn hwalk => ?_⟩
  · exact Nat.le_of_not_lt fun hlt => hleast n hlt hn
  · exact Nat.not_le_of_lt hn (hleast hwalk)

end Arena

/-! ### Layers as a list -/

namespace Search

/-- The nodes of all layers in order, each with the depth of its layer. -/
def byDepth (layers : List (List Nat)) : List (Nat × Nat) :=
  layers.zipIdx.flatMap fun (layer, depth) => layer.map fun q => (q, depth)

variable {layers : List (List Nat)} {R : Nat → Nat → Prop} {q d : Nat}

theorem mem_byDepth_iff : (q, d) ∈ byDepth layers ↔ q ∈ layers[d]?.getD [] := by
  simp only [byDepth, List.mem_flatMap, List.mem_map, Prod.mk.injEq]
  constructor
  · rintro ⟨⟨layer, depth⟩, hlayer, q, hq, rfl, rfl⟩
    rw [List.mk_mem_zipIdx_iff_getElem?.mp hlayer]
    exact hq
  · intro hq
    cases hlayer : layers[d]? with
    | none => simp [hlayer] at hq
    | some layer =>
      rw [hlayer] at hq
      exact ⟨(layer, d), List.mk_mem_zipIdx_iff_getElem?.mpr hlayer, q, hq, rfl, rfl⟩

theorem map_fst_byDepth (layers : List (List Nat)) : (byDepth layers).map Prod.fst = layers.flatten := by
  have hfst : ∀ x : List Nat × Nat, (x.1.map fun q => (q, x.2)).map Prod.fst = x.1 := fun x => by simp [Function.comp_def]
  calc (byDepth layers).map Prod.fst
      = layers.zipIdx.flatMap fun x => (x.1.map fun q => (q, x.2)).map Prod.fst := List.map_flatMap ..
    _ = (layers.zipIdx.map Prod.fst).flatten := by simp only [hfst, List.flatMap_def]
    _ = layers.flatten := by rw [List.zipIdx_map_fst]

/-- Depths increase from layer to layer. -/
theorem pairwise_byDepth (h : ∀ layer ∈ layers, layer.Pairwise R) :
    (byDepth layers).Pairwise fun a b => a.2 < b.2 ∨ a.2 = b.2 ∧ R a.1 b.1 := by
  have hincreasing : layers.zipIdx.Pairwise fun x y => x.2 < y.2 := by
    rw [← List.pairwise_map, List.zipIdx_map_snd]
    exact List.pairwise_lt_range' 1
  refine List.pairwise_flatMap.mpr ⟨fun x hx => ?_, hincreasing.imp fun hlt a ha b hb => ?_⟩
  · rw [List.pairwise_map]
    exact (h x.1 (List.fst_mem_of_mem_zipIdx hx)).imp fun hR => Or.inr ⟨rfl, hR⟩
  · obtain ⟨_, -, rfl⟩ := List.mem_map.mp ha
    obtain ⟨_, -, rfl⟩ := List.mem_map.mp hb
    exact Or.inl hlt

end Search

/-! ### The depths of an automaton -/

namespace Automaton

open Search

variable {A : Automaton} {q d : Nat}

theorem mem_layers_iff (hclosed : A.arena.Closed) (hinitial : A.initial < A.size) :
    q ∈ A.layers[d]?.getD [] ↔ A.arena.graph.IsDistance A.initial q d :=
  Search.mem_layers_iff.trans (Arena.atDistance_targets_iff hclosed hinitial)

theorem mem_depths_iff (hclosed : A.arena.Closed) (hinitial : A.initial < A.size) :
    (q, d) ∈ A.depths ↔ A.arena.graph.IsDistance A.initial q d :=
  mem_byDepth_iff.trans (mem_layers_iff hclosed hinitial)

theorem map_fst_depths (A : Automaton) : A.depths.map Prod.fst = A.layers.flatten := map_fst_byDepth A.layers

theorem mem_flatten_layers_iff (hclosed : A.arena.Closed) (hinitial : A.initial < A.size) :
    q ∈ A.layers.flatten ↔ ∃ n, A.arena.graph.Walk A.initial n q := by
  unfold layers
  simp only [Search.mem_flatten_layers_iff, size, Arena.reached_targets_iff hclosed hinitial]

theorem nodup_flatten_layers (A : Automaton) : A.layers.flatten.Nodup := Search.nodup_flatten_layers

theorem pairwise_snd_depths (A : Automaton) : (A.depths.map Prod.snd).Pairwise (· ≤ ·) := by
  have hanyhow : ∀ layer ∈ A.layers, layer.Pairwise fun _ _ => True := by
    intro layer _
    exact List.pairwise_of_forall fun _ _ => trivial
  rw [List.pairwise_map]
  refine (pairwise_byDepth hanyhow).imp ?_
  rintro a b (hlt | ⟨heq, -⟩)
  · exact Nat.le_of_lt hlt
  · exact Nat.le_of_eq heq

/-- Where a way leads from the initial state to every state, every state is in a layer. -/
theorem Normalized.flatten_layers_perm (h : A.Normalized) : A.layers.flatten.Perm (List.range A.size) := by
  refine (List.perm_ext_iff_of_nodup A.nodup_flatten_layers List.nodup_range).mpr fun q => ?_
  rw [mem_flatten_layers_iff h.closed h.initial_lt, Graph.exists_walk_iff, List.mem_range]
  constructor
  · rintro ⟨w, -, hpath⟩
    exact Arena.lt_size_of_path h.closed hpath h.initial_lt
  · exact h.reachable q

/-- **The depths of an automaton are distances.** The states that can be reached are listed once each, with the length
of a shortest path, and nearer ones before those further away. In the automaton of a list of tokens these are all
states. An assembly of numbered states has the depths of the automaton that has these states alone. -/
theorem depths_eq_distances :
    (∀ A : Automaton, A.arena.Closed → A.initial < A.size →
      (∀ q d, (q, d) ∈ A.depths ↔ A.arena.graph.IsDistance A.initial q d) ∧
        (∀ q, q ∈ A.depths.map Prod.fst ↔ ∃ n, A.arena.graph.Walk A.initial n q) ∧
        (A.depths.map Prod.fst).Nodup ∧
        (A.depths.map Prod.snd).Pairwise (· ≤ ·)) ∧
      (∀ ts A, ofPostfix ts = .ok A → (A.depths.map Prod.fst).Perm (List.range A.size)) ∧
      ∀ (ws : Workspace) (a : Assembly), a.Placed ws →
        (a.compact ws).arena.Closed ∧
          (a.compact ws).initial < (a.compact ws).size ∧
          (a.profile ws).depths = (a.compact ws).depths.map fun (q, depth) => ((q : Int), depth) := by
  refine ⟨?_, ?_, ?_⟩
  · intro A hclosed hinitial
    refine ⟨fun q d => mem_depths_iff hclosed hinitial, fun q => ?_, ?_, A.pairwise_snd_depths⟩
    · rw [map_fst_depths, mem_flatten_layers_iff hclosed hinitial]
    · rw [map_fst_depths]
      exact A.nodup_flatten_layers
  · intro ts A h
    obtain ⟨e, -, rfl⟩ := ofPostfix_eq_ok_iff.mp h
    rw [map_fst_depths]
    exact e.normalized_automaton.flatten_layers_perm
  · intro ws a hplaced
    exact ⟨hplaced.closed_compact, hplaced.initial_compact_lt, hplaced.depths_eq⟩

/-- Edges run in a circle, one twice and one back to its own state, and no edge leads to the last state. In the
automaton of a starred literal all states are listed. The states of an assembly need not stand in front of others. -/
theorem depths_eq_distances_circle :
    let arena := Arena.ofTransitions 4
      [⟨0, ['a'], 1⟩, ⟨0, ['a'], 1⟩, ⟨1, [], 1⟩, ⟨1, ['b'], 2⟩, ⟨2, [], 0⟩, ⟨3, ['c'], 0⟩] 2
    let A : Automaton := ⟨arena, 0, 2⟩
    let ts : List Token := [.literal ['a'], .operator .star]
    let ws : Workspace := ⟨#[1, 7, 0], #[{}, {}, { successors := .ofEdges [(['a'], 0)] }]⟩
    let a : Assembly := ⟨[2, 0], 2, 1⟩
    A.arena.Closed ∧ A.initial < A.size ∧ (2, 2) ∈ A.depths ∧ 3 ∉ A.depths.map Prod.fst ∧
      (∃ B, ofPostfix ts = .ok B ∧ (B.depths.map Prod.fst).Perm (List.range B.size)) ∧
      a.Placed ws ∧ (a.profile ws).depths = (a.compact ws).depths.map fun (q, depth) => ((q : Int), depth) := by
  intro arena A ts ws a
  have hclosed : A.arena.Closed := by decide
  have hinitial : A.initial < A.size := by decide
  obtain ⟨hdepths, hreached, -, -⟩ := depths_eq_distances.1 A hclosed hinitial
  have hedge : ∀ p c q, arena.graph p c q → q ∈ arena.targets p := fun p c q h => Arena.mem_targets_iff.mpr ⟨c, h⟩
  have hwalk : arena.graph.Walk 0 2 2 :=
    .edge (.edge .refl (show (['a'], 1) ∈ arena.edges 0 by decide)) (show (['b'], 2) ∈ arena.edges 1 by decide)
  have hdistance : arena.graph.IsDistance 0 2 2 := by
    refine ⟨hwalk, fun n hn => Nat.le_of_not_lt fun hlt => ?_⟩
    have hcases : n = 0 ∨ n = 1 := by omega
    rcases hcases with rfl | rfl
    · exact absurd (Graph.walk_zero_iff.mp hn) (by decide)
    · obtain ⟨p, c, hp, hlast⟩ := Graph.walk_succ_iff.mp hn
      obtain rfl := Graph.walk_zero_iff.mp hp
      exact absurd (hedge 0 c 2 hlast) (by decide)
  have hnone : ∀ p < arena.size, 3 ∉ arena.targets p := by decide
  have hlast : ¬ ∃ n, arena.graph.Walk 0 n 3 := by
    rintro ⟨n, hwalk⟩
    exact absurd (Arena.eq_of_walk hnone hwalk) (by decide)
  have hok : ∃ B, ofPostfix ts = .ok B := ⟨_, rfl⟩
  obtain ⟨B, hB⟩ := hok
  have hplaced : a.Placed ws := by
    refine ⟨?_, ?_, ?_, ?_, ?_⟩ <;> decide
  exact ⟨hclosed, hinitial, (hdepths 2 2).mpr hdistance, fun h => hlast ((hreached 3).mp h),
    ⟨B, hB, depths_eq_distances.2.1 ts B hB⟩, hplaced, (depths_eq_distances.2.2 ws a hplaced).2.2⟩

end Automaton
end PatternAutomata
