import PatternAutomata.Proofs.Simulation
import PatternAutomata.Proofs.Steps

/-!
# Reading the empty symbol

The empty symbol stands on the edges that may be followed without reading, and it may be read itself. Whoever reads it
follows an edge that needs not be read, so a path that reads it is also one without it (`Graph.Path.thinned`). Active
states are the ends of paths. So where the empty symbol is left out of a word no state is lost, and reading it never
activates anything (`Automaton.active_subset_of_thinned`).
-/

namespace PatternAutomata

/-- `Thinned w v`: the word `v` is `w` without some of its empty symbols. -/
inductive Word.Thinned : Word → Word → Prop
  | nil : Thinned [] []
  | keep {c : Symbol} {w v : Word} : Thinned w v → Thinned (c :: w) (c :: v)
  | drop {w v : Word} : Thinned w v → Thinned (Symbol.epsilon :: w) v

/-- **What reads empty symbols can do without them.** -/
theorem Graph.Path.thinned {G : Graph} {p q : Nat} {w v : Word} (hpath : Path G p w q) (h : w.Thinned v) :
    Path G p v q := by
  induction hpath generalizing v with
  | refl q =>
    cases h
    exact .refl q
  | epsilon hedge _ ih => exact .epsilon hedge (ih h)
  | read hedge _ ih =>
    cases h with
    | keep h => exact .read hedge (ih h)
    | drop h => exact .epsilon hedge (ih h)

namespace Automaton

variable {A : Automaton} {w v : Word} {p q : Nat}

/-- No edge without symbol leads from an active state to one that is not active. -/
theorem mem_active_of_mem_epsilons (hclosed : A.arena.Closed) (hinitial : A.initial < A.size)
    (hp : p ∈ (A.simulate w).active) (hq : q ∈ A.arena.epsilons p) : q ∈ (A.simulate w).active := by
  have hpath : A.arena.graph.Path A.initial w p := (mem_foldl_advance_iff hclosed hinitial w).mp hp
  have hlonger := hpath.trans (.single_epsilon (Arena.mem_epsilons.mp hq))
  rw [List.append_nil] at hlonger
  exact (mem_foldl_advance_iff hclosed hinitial w).mpr hlonger

/-- A state that is active after a word is active after the word without empty symbols. -/
theorem mem_active_of_thinned (hclosed : A.arena.Closed) (hinitial : A.initial < A.size) (h : w.Thinned v)
    (hq : q ∈ (A.simulate w).active) : q ∈ (A.simulate v).active := by
  have hpath : A.arena.graph.Path A.initial w q := (mem_foldl_advance_iff hclosed hinitial w).mp hq
  exact (mem_foldl_advance_iff hclosed hinitial v).mpr (hpath.thinned h)

/-- **Reading the empty symbol activates nothing.** While an automaton reads, edges without symbol lead from active states
to active states only. So where empty symbols are left out of a word, the active states stay active, and the word is
accepted if it was before. -/
theorem active_subset_of_thinned (A : Automaton) (hclosed : A.arena.Closed) (hinitial : A.initial < A.size) (w : Word) :
    (∀ report ∈ A.steps w, ∀ p ∈ report.active, ∀ q ∈ A.arena.epsilons p, q ∈ report.active) ∧
      ∀ v, w.Thinned v →
        (A.simulate w).active ⊆ (A.simulate v).active ∧ (A.accepts w = true → A.accepts v = true) := by
  refine ⟨?_, fun v h => ?_⟩
  · rw [steps_eq_map_simulate, List.forall_mem_map]
    intro i _ p hp q hq
    exact mem_active_of_mem_epsilons hclosed hinitial hp hq
  · refine ⟨fun q hq => mem_active_of_thinned hclosed hinitial h hq, fun haccepts => ?_⟩
    obtain ⟨q, hpath, hfinal⟩ := (accepts_iff_path hclosed hinitial w).mp haccepts
    exact (accepts_iff_path hclosed hinitial v).mpr ⟨q, hpath.thinned h, hfinal⟩

/-- Two states reach each other without reading. A letter that is read behind one of these edges is also read without the
empty symbol in front of it. -/
theorem active_subset_of_thinned_circle :
    let A : Automaton :=
      ⟨Arena.addEdge (Arena.addEdge (Arena.addEdge #[{}, {}, { isFinal := true }] 0 [] 1) 1 [] 0) 1 ['a'] 2, 0, 2⟩
    let w : Word := [[], ['a'], []]
    let v : Word := [[], ['a']]
    A.arena.Closed ∧ A.initial < A.size ∧ w.Thinned v ∧ Word.Thinned v [['a']] ∧ A.accepts v = true ∧
      A.accepts [['a']] = true ∧ (A.simulate w).active ⊆ (A.simulate v).active := by
  intro A w v
  have hclosed : A.arena.Closed := by decide
  have hinitial : A.initial < A.size := by decide
  have hw : w.Thinned v := .keep (.keep (.drop .nil))
  have hv : Word.Thinned v [['a']] := .drop (.keep .nil)
  have hempty : A.arena.graph 0 [] 1 := show ([], 1) ∈ A.arena.edges 0 by decide
  have hletter : A.arena.graph 1 ['a'] 2 := show (['a'], 2) ∈ A.arena.edges 1 by decide
  have haccepts : A.accepts v = true :=
    (accepts_iff_path hclosed hinitial v).mpr ⟨2, .read hempty (.read hletter (.refl 2)), by decide⟩
  obtain ⟨-, hshorter⟩ := active_subset_of_thinned A hclosed hinitial v
  obtain ⟨-, hlonger⟩ := active_subset_of_thinned A hclosed hinitial w
  exact ⟨hclosed, hinitial, hw, hv, haccepts, (hshorter _ hv).2 haccepts, (hlonger v hw).1⟩

end Automaton
end PatternAutomata
