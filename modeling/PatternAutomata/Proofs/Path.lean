import PatternAutomata.Automaton.Arena

/-!
# Paths

A path through a graph with labelled edges reads a word. Edges with the empty symbol may be followed without reading; the
empty symbol may also stand in a word, and is then read by such an edge like any other symbol.

* `Graph.path_append_iff`, `Graph.path_cons_iff` — a path can be cut where a part of its word ends;
* `Graph.Path.confined`, `Graph.Path.leave` — how a path runs through a region whose edges are known, to its end or out of
  it;
* `Arena.graph_addEdge` and its companions — what the operations on arenas do to the graph.
-/

namespace PatternAutomata

/-- Labelled edges between states. -/
abbrev Graph := Nat → Symbol → Nat → Prop

namespace Graph

/-- The states are joined by a path that reads the word. -/
inductive Path (G : Graph) : Nat → Word → Nat → Prop
  | refl (q : Nat) : Path G q [] q
  | epsilon {p q r : Nat} {w : Word} : G p Symbol.epsilon q → Path G q w r → Path G p w r
  | read {p q r : Nat} {c : Symbol} {w : Word} : G p c q → Path G q w r → Path G p (c :: w) r

variable {G H : Graph} {p q r : Nat} {u v w : Word} {c : Symbol}

theorem Path.single_epsilon (h : G p Symbol.epsilon q) : Path G p [] q := .epsilon h (.refl q)

theorem Path.trans (h : Path G p u q) (h' : Path G q v r) : Path G p (u ++ v) r := by
  induction h with
  | refl _ => exact h'
  | epsilon hedge _ ih => exact .epsilon hedge (ih h')
  | read hedge _ ih => exact .read hedge (ih h')

theorem Path.mono (hle : ∀ {p c q}, G p c q → H p c q) (h : Path G p w q) : Path H p w q := by
  induction h with
  | refl q => exact .refl q
  | epsilon hedge _ ih => exact .epsilon (hle hedge) ih
  | read hedge _ ih => exact .read (hle hedge) ih

theorem path_cons_iff :
    Path G p (c :: w) r ↔ ∃ q q', Path G p [] q ∧ G q c q' ∧ Path G q' w r := by
  constructor
  · intro h
    generalize hv : c :: w = v at h
    induction h with
    | refl _ => cases hv
    | @epsilon p p' r v hedge _ ih =>
      obtain ⟨q, q', hq, hread, hrest⟩ := ih hv
      exact ⟨q, q', .epsilon hedge hq, hread, hrest⟩
    | @read p p' r d v hedge hrest _ =>
      obtain ⟨rfl, rfl⟩ := List.cons.inj hv
      exact ⟨p, p', .refl p, hedge, hrest⟩
  · rintro ⟨q, q', hq, hread, hrest⟩
    exact hq.trans (.read hread hrest)

theorem path_append_iff : Path G p (u ++ v) r ↔ ∃ q, Path G p u q ∧ Path G q v r := by
  constructor
  · intro h
    induction u generalizing p with
    | nil => exact ⟨p, .refl p, h⟩
    | cons c u ih =>
      obtain ⟨q, q', hq, hread, hrest⟩ := path_cons_iff.mp h
      obtain ⟨s, hs, hv⟩ := ih hrest
      exact ⟨s, hq.trans (.read hread hs), hv⟩
  · rintro ⟨q, hu, hv⟩
    exact hu.trans hv

/-- From a state that no edge leaves there is only the path that stays. -/
theorem Path.of_sink (hsink : ∀ c q, ¬ G p c q) (h : Path G p w r) : w = [] ∧ r = p := by
  cases h with
  | refl _ => exact ⟨rfl, rfl⟩
  | epsilon hedge _ => exact absurd hedge (hsink _ _)
  | read hedge _ => exact absurd hedge (hsink _ _)

/-- A path away from a state that can only be left without reading. -/
theorem Path.exists_of_epsilon_only {X : Nat → Prop} (hstep : ∀ {c q}, G p c q → c = Symbol.epsilon ∧ X q)
    (h : Path G p w r) (hne : p ≠ r) (hw : Symbol.epsilon ∉ w) : ∃ q, X q ∧ Path G q w r := by
  cases h with
  | refl _ => exact absurd rfl hne
  | epsilon hedge hrest => exact ⟨_, (hstep hedge).2, hrest⟩
  | read hedge _ => exact absurd (hstep hedge).1 fun hc => hw (hc ▸ List.mem_cons_self)

/-- A path that begins in a region out of which no edge leads uses the edges of the region only. -/
theorem Path.confined {R : Nat → Prop} (hstep : ∀ {p c q}, R p → G p c q → H p c q ∧ R q)
    (h : Path G p w q) (hp : R p) : Path H p w q := by
  induction h with
  | refl q => exact .refl q
  | epsilon hedge _ ih => exact .epsilon (hstep hp hedge).1 (ih (hstep hp hedge).2)
  | read hedge _ ih => exact .read (hstep hp hedge).1 (ih (hstep hp hedge).2)

/-- A path from a region to a state outside of it, where the region is left from one state only and without reading: its
word is one that leads to this state inside the region, and one that continues from there. `K` holds of the words that
continue; an exit may lead back into the region, the path from there is cut again. -/
theorem Path.leave {R X : Nat → Prop} {K : Word → Prop} {stop target : Nat} (htarget : ¬ R target)
    (hstep : ∀ {p c q}, R p → G p c q → (H p c q ∧ R q) ∨ (p = stop ∧ c = Symbol.epsilon ∧ X q))
    (hexit : ∀ {x w}, X x → Symbol.epsilon ∉ w → Path G x w target →
      (R x → ∃ u v, w = u ++ v ∧ Path H x u stop ∧ K v) → K w)
    (h : Path G p w target) (hp : R p) (hw : Symbol.epsilon ∉ w) : ∃ u v, w = u ++ v ∧ Path H p u stop ∧ K v := by
  induction h with
  | refl q => exact absurd hp htarget
  | @epsilon p q r w hedge hrest ih =>
    rcases hstep hp hedge with ⟨hinside, hq⟩ | ⟨rfl, -, hx⟩
    · obtain ⟨u, v, rfl, hu, hv⟩ := ih htarget hexit hq hw
      exact ⟨u, v, rfl, .epsilon hinside hu, hv⟩
    · exact ⟨[], w, rfl, .refl p, hexit hx hw hrest fun hq => ih htarget hexit hq hw⟩
  | @read p q r c w hedge hrest ih =>
    obtain ⟨hc, hw⟩ := not_or.mp fun hmem => hw (List.mem_cons.mpr hmem)
    rcases hstep hp hedge with ⟨hinside, hq⟩ | ⟨-, rfl, -⟩
    · obtain ⟨u, v, rfl, hu, hv⟩ := ih htarget hexit hq hw
      exact ⟨c :: u, v, rfl, .read hinside hu, hv⟩
    · exact absurd rfl hc

end Graph

namespace Arena

/-- The edges of an arena. -/
def graph (arena : Arena) : Graph := fun p c q => (c, q) ∈ arena.edges p

/-- Every edge leads to a state of the arena. -/
def Closed (arena : Arena) : Prop := ∀ s ∈ arena, ∀ target ∈ s.successors.targets, target < arena.size

instance (arena : Arena) : Decidable arena.Closed := by unfold Closed; infer_instance

variable {arena : Arena} {p q : Nat} {c : Symbol}

theorem mem_read : q ∈ arena.read p c ↔ arena.graph p c q := Successors.mem_read

theorem mem_epsilons : q ∈ arena.epsilons p ↔ arena.graph p Symbol.epsilon q := Successors.mem_read

theorem graph_empty : ¬ graph #[] p c q := by simp [graph, edges, state_eq]

theorem graph_addState : arena.addState.graph p c q ↔ arena.graph p c q := by simp [graph, edges]

theorem graph_addEdge {source : Nat} (h : source < arena.size) {symbol : Symbol} {target : Nat} :
    (arena.addEdge source symbol target).graph p c q ↔
      arena.graph p c q ∨ (p = source ∧ c = symbol ∧ q = target) := by
  simp only [graph, edges, state_addEdge h]
  split
  next he => simp [Successors.mem_edges_add, he]
  next he => simp [he]

theorem graph_setFinal {state : Nat} (h : state < arena.size) (isFinal : Bool) :
    (arena.setFinal state isFinal).graph p c q ↔ arena.graph p c q := by
  simp only [graph, edges, state_setFinal h]
  split <;> rfl

theorem source_lt_of_graph (h : arena.graph p c q) : p < arena.size := by
  refine Nat.lt_of_not_le fun hp => ?_
  simp [graph, edges, state_of_size_le hp] at h

theorem closed_iff : arena.Closed ↔ ∀ p c q, arena.graph p c q → q < arena.size := by
  constructor
  · intro h p c q hedge
    have hp := source_lt_of_graph hedge
    refine h arena[p] (Array.getElem_mem hp) q (Successors.mem_targets.mpr ⟨c, ?_⟩)
    simpa [graph, edges, state_eq, Array.getElem?_eq_getElem hp] using hedge
  · intro h s hs target ht
    obtain ⟨p, hp, rfl⟩ := Array.getElem_of_mem hs
    obtain ⟨c, hedge⟩ := Successors.mem_targets.mp ht
    exact h p c target (by simpa [graph, edges, state_eq, Array.getElem?_eq_getElem hp] using hedge)

/-- A path from a state of the arena stays in it, if every edge does. -/
theorem lt_size_of_path {w : Word} (hclosed : arena.Closed) (h : arena.graph.Path p w q) (hp : p < arena.size) :
    q < arena.size := by
  induction h with
  | refl q => exact hp
  | epsilon hedge _ ih => exact ih (closed_iff.mp hclosed _ _ _ hedge)
  | read hedge _ ih => exact ih (closed_iff.mp hclosed _ _ _ hedge)

end Arena
end PatternAutomata
