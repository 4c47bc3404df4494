import Mathlib.Data.List.Induction
import PatternAutomata.Automaton.Simulation
import PatternAutomata.Proofs.Path
import PatternAutomata.Proofs.Search

/-!
# Simulation follows all paths

* `mem_closure_iff` — the closure of some states holds what paths that read nothing lead to;
* `mem_foldl_advance_iff` — the active states after a word are the ends of the paths that read it;
* `simulate_eq_paths` — so is what a simulation reports, and it is a match if one of these states is flagged.

All of it is about any arena whose edges lead to states of its own. Whether a state is final is decided by its flag, not
by the final state that the automaton names.
-/

namespace PatternAutomata

namespace Arena

variable {arena : Arena} {states : List Nat} {q : Nat}

/-- What the search along edges without symbol reaches is what paths that read nothing lead to. -/
theorem reached_epsilons_iff (hclosed : arena.Closed) (hstates : ∀ p ∈ states, p < arena.size) :
    (∃ n, Search.Reached arena.epsilons arena.size states n q) ↔ ∃ p ∈ states, arena.graph.Path p [] q := by
  constructor
  · rintro ⟨n, hn⟩
    induction n generalizing q with
    | zero => exact ⟨q, hn.1, .refl q⟩
    | succ n ih =>
      obtain ⟨r, hr, hedge, -⟩ := hn
      obtain ⟨p, hp, hpath⟩ := ih hr
      exact ⟨p, hp, hpath.trans (.single_epsilon (mem_epsilons.mp hedge))⟩
  · rintro ⟨p, hp, hpath⟩
    have hstart : Search.Reached arena.epsilons arena.size states 0 p := ⟨hp, hstates p hp⟩
    generalize hw : ([] : Word) = w at hpath
    generalize 0 = n at hstart
    clear hp
    induction hpath generalizing n with
    | refl q => exact ⟨n, hstart⟩
    | @epsilon p r _ _ hedge _ ih =>
      exact ih hw (n + 1) ⟨p, hstart, mem_epsilons.mpr hedge, closed_iff.mp hclosed _ _ _ hedge⟩
    | read _ _ _ => cases hw

theorem mem_closure_iff (hclosed : arena.Closed) (hstates : ∀ p ∈ states, p < arena.size) :
    q ∈ arena.closure states ↔ ∃ p ∈ states, arena.graph.Path p [] q := by
  rw [closure, List.mem_mergeSort, Search.mem_flatten_layers_iff, reached_epsilons_iff hclosed hstates]

theorem closure_sorted : (arena.closure states).Pairwise (· < ·) := by
  have hnodup : (arena.closure states).Nodup :=
    (List.mergeSort_perm _ _).nodup_iff.mpr Search.nodup_flatten_layers
  have hsorted : (arena.closure states).Pairwise (· ≤ ·) := by
    have h := @List.pairwise_mergeSort _ (fun a b : Nat => decide (a ≤ b)) (by simp; omega) (by simp; omega)
      (Search.layers arena.epsilons arena.size states).flatten
    simpa [closure] using h
  exact hsorted.imp₂ (fun _ _ hle hne => Nat.lt_of_le_of_ne hle hne) hnodup

end Arena

namespace Automaton

variable {A : Automaton} {q : Nat}

theorem mem_start_iff (hclosed : A.arena.Closed) (hinitial : A.initial < A.size) :
    q ∈ A.start ↔ A.arena.graph.Path A.initial [] q := by
  rw [start, Arena.mem_closure_iff hclosed fun p hp => List.mem_singleton.mp hp ▸ hinitial]
  simp

theorem mem_advance_iff (hclosed : A.arena.Closed) {active : List Nat} {c : Symbol} :
    q ∈ A.advance active c ↔ ∃ p ∈ active, ∃ p', A.arena.graph p c p' ∧ A.arena.graph.Path p' [] q := by
  rw [advance, Arena.mem_closure_iff hclosed]
  · simp only [List.mem_flatMap, Arena.mem_read]
    constructor
    · rintro ⟨p', ⟨p, hp, hedge⟩, hpath⟩
      exact ⟨p, hp, p', hedge, hpath⟩
    · rintro ⟨p, hp, p', hedge, hpath⟩
      exact ⟨p', ⟨p, hp, hedge⟩, hpath⟩
  · intro p' hp'
    obtain ⟨p, -, hedge⟩ := List.mem_flatMap.mp hp'
    exact Arena.closed_iff.mp hclosed p c p' (Arena.mem_read.mp hedge)

theorem mem_foldl_advance_iff (hclosed : A.arena.Closed) (hinitial : A.initial < A.size) (w : Word) :
    q ∈ w.foldl A.advance A.start ↔ A.arena.graph.Path A.initial w q := by
  induction w using List.reverseRecOn generalizing q with
  | nil => exact mem_start_iff hclosed hinitial
  | append_singleton w c ih =>
    rw [List.foldl_append, List.foldl_cons, List.foldl_nil, mem_advance_iff hclosed, Graph.path_append_iff]
    simp only [ih, Graph.path_cons_iff (w := [])]
    constructor
    · rintro ⟨p, hp, p', hedge, hpath⟩
      exact ⟨p, hp, p, p', .refl p, hedge, hpath⟩
    · rintro ⟨r, hr, p, p', hp, hedge, hpath⟩
      have hrp := hr.trans hp
      rw [List.append_nil] at hrp
      exact ⟨p, hrp, p', hedge, hpath⟩

theorem foldl_advance_sorted (w : Word) : (w.foldl A.advance A.start).Pairwise (· < ·) := by
  induction w using List.reverseRecOn with
  | nil => exact Arena.closure_sorted
  | append_singleton w c _ =>
    rw [List.foldl_append]
    exact Arena.closure_sorted

theorem accepts_iff_path (hclosed : A.arena.Closed) (hinitial : A.initial < A.size) (w : Word) :
    A.accepts w = true ↔ ∃ q, A.arena.graph.Path A.initial w q ∧ A.arena.isFinal q = true := by
  simp only [accepts, simulate, report, List.any_eq_true, mem_foldl_advance_iff hclosed hinitial]

/-- **A simulation reports the ends of all paths that read the word**, in increasing order, and a match if one of them is
flagged as final. -/
theorem simulate_eq_paths (A : Automaton) (hclosed : A.arena.Closed) (hinitial : A.initial < A.size) (w : Word) :
    (∀ q, q ∈ (A.simulate w).active ↔ A.arena.graph.Path A.initial w q) ∧
      (A.simulate w).active.Pairwise (· < ·) ∧
      ((A.simulate w).isMatch = true ↔ ∃ q, A.arena.graph.Path A.initial w q ∧ A.arena.isFinal q = true) :=
  ⟨fun _ => mem_foldl_advance_iff hclosed hinitial w, foldl_advance_sorted w, accepts_iff_path hclosed hinitial w⟩

/-- Two states reach each other without reading, and an edge without symbol is read like any other. -/
theorem simulate_eq_paths_cycle :
    let A : Automaton :=
      ⟨Arena.addEdge (Arena.addEdge (Arena.addEdge #[{}, {}, { isFinal := true }] 0 [] 1) 1 [] 0) 1 ['a'] 2, 0, 0⟩
    A.arena.Closed ∧ A.initial < A.size ∧ 2 ∈ (A.simulate [[], ['a']]).active ∧
      (A.simulate [[], ['a']]).isMatch = true := by
  intro A
  have hclosed : A.arena.Closed := by decide
  have hinitial : A.initial < A.size := by decide
  have hempty : A.arena.graph 0 [] 1 := show ([], 1) ∈ A.arena.edges 0 by decide
  have hletter : A.arena.graph 1 ['a'] 2 := show (['a'], 2) ∈ A.arena.edges 1 by decide
  have hpath : A.arena.graph.Path A.initial [[], ['a']] 2 := .read hempty (.read hletter (.refl 2))
  obtain ⟨hactive, -, hmatch⟩ := simulate_eq_paths A hclosed hinitial [[], ['a']]
  exact ⟨hclosed, hinitial, (hactive 2).mpr hpath, hmatch.mpr ⟨2, hpath, by decide⟩⟩

end Automaton
end PatternAutomata
