import PatternAutomata.Automaton.Transition
import PatternAutomata.Proofs.Shape

/-!
# The layout of an expression

Where every state and every edge of an automaton goes, by recursion on the expression alone: no arena is handed on, no
fragment waits, and an edge is named once and for all by the numbers of its states. The construction, which goes through the
postorder and adds edges to states that it made before, arrives at this layout (`Automaton.ofPostfix_eq_layout`).

* `Expr.transitions` — the edges of an expression whose states are numbered from a given one on;
* `Expr.outgoing_eq_leaving` — state by state they are those that the construction makes;
* `Arena.ofTransitions`, `Expr.layout` — the arena and the automaton with these edges.
-/

namespace PatternAutomata

/-- The edges of a list that leave a state, in order. -/
def Transition.leaving (ts : List Transition) (q : Nat) : List (Symbol × Nat) :=
  (ts.filter fun t => t.source = q).map fun t => (t.symbol, t.target)

namespace Transition

variable {ts us : List Transition} {t : Transition} {q : Nat}

@[simp] theorem leaving_nil : leaving [] q = [] := rfl

theorem leaving_cons :
    leaving (t :: ts) q = (if t.source = q then [(t.symbol, t.target)] else []) ++ leaving ts q := by
  unfold leaving
  rw [List.filter_cons]
  by_cases h : t.source = q <;> simp [h]

theorem leaving_singleton : leaving [t] q = if t.source = q then [(t.symbol, t.target)] else [] := by
  rw [leaving_cons, leaving_nil, List.append_nil]

theorem leaving_append : leaving (ts ++ us) q = leaving ts q ++ leaving us q := by
  unfold leaving
  rw [List.filter_append, List.map_append]

end Transition

namespace Arena

/-- The arena with some edges, where one state is final. The table of a state is made of its edges in their order. -/
def ofTransitions (size : Nat) (ts : List Transition) (final : Nat) : Arena :=
  Array.ofFn fun q : Fin size => { isFinal := q.val == final, successors := .ofEdges (Transition.leaving ts q) }

theorem size_ofTransitions (size : Nat) (ts : List Transition) (final : Nat) :
    (ofTransitions size ts final).size = size := by
  unfold ofTransitions
  exact Array.size_ofFn

theorem state_ofTransitions {size q : Nat} (h : q < size) (ts : List Transition) (final : Nat) :
    (ofTransitions size ts final).state q =
      { isFinal := q == final, successors := .ofEdges (Transition.leaving ts q) } := by
  rw [state_eq, ofTransitions, Array.getElem?_ofFn, dif_pos h]
  rfl

/-- Arenas of one size with the same states are the same. -/
theorem ext_state {arena arena' : Arena} (hsize : arena.size = arena'.size)
    (h : ∀ q < arena.size, arena.state q = arena'.state q) : arena = arena' := by
  apply Array.ext hsize
  intro q hq hq'
  have hstate := h q hq
  rw [state_eq, state_eq, Array.getElem?_eq_getElem hq, Array.getElem?_eq_getElem hq'] at hstate
  exact hstate

end Arena

namespace Expr

/-- The edges of an expression whose states are numbered from `n` on. The states of the first operand come first, then those
of the second one, then those that the operator needs itself. -/
def transitions : Expr → Nat → List Transition
  | literal symbol, n => [⟨n, symbol, n + 1⟩]
  | star inner, n =>
    let entry := n + inner.size
    inner.transitions n ++
      [⟨entry, Symbol.epsilon, inner.start n⟩, ⟨entry, Symbol.epsilon, entry + 1⟩,
        ⟨inner.stop n, Symbol.epsilon, inner.start n⟩, ⟨inner.stop n, Symbol.epsilon, entry + 1⟩]
  | concat first second, n =>
    first.transitions n ++ second.transitions (n + first.size) ++
      [⟨first.stop n, Symbol.epsilon, second.start (n + first.size)⟩]
  | alternate first second, n =>
    let entry := n + first.size + second.size
    first.transitions n ++ second.transitions (n + first.size) ++
      [⟨entry, Symbol.epsilon, first.start n⟩, ⟨entry, Symbol.epsilon, second.start (n + first.size)⟩,
        ⟨first.stop n, Symbol.epsilon, entry + 1⟩, ⟨second.stop (n + first.size), Symbol.epsilon, entry + 1⟩]

variable {e : Expr} {n q : Nat}

/-- Side by side, two operands have the edges of the one that the state belongs to. -/
theorem outgoing_append (e f : Expr) (n q : Nat) :
    e.outgoing n q ++ f.outgoing (n + e.size) q =
      if q < n + e.size then e.outgoing n q else f.outgoing (n + e.size) q := by
  by_cases h : q < n + e.size
  · rw [if_pos h, outgoing_of_lt h, List.append_nil]
  · rw [if_neg h, outgoing_of_le (Nat.le_of_not_lt h), List.nil_append]

/-- The edges that the construction makes at a state are those of the layout. -/
theorem outgoing_eq_leaving (e : Expr) (n q : Nat) : e.outgoing n q = Transition.leaving (e.transitions n) q := by
  induction e generalizing n with
  | literal symbol => simp only [outgoing, transitions, Transition.leaving_singleton, eq_comm (a := q)]
  | star inner ih =>
    obtain ⟨-, hstop⟩ := inner.within_stop n
    simp only [outgoing, transitions, Transition.leaving_append, Transition.leaving_cons, Transition.leaving_nil, ← ih]
    by_cases hentry : q = n + inner.size
    · rw [outgoing_of_le (Nat.le_of_eq hentry.symm)]
      simp [hentry, Nat.ne_of_lt hstop]
    by_cases hexit : q = inner.stop n
    · subst hexit
      rw [outgoing_stop]
      simp [Ne.symm hentry]
    simp [hentry, hexit, Ne.symm hentry, Ne.symm hexit]
  | concat first second ihf ihs =>
    obtain ⟨-, hstop⟩ := first.within_stop n
    simp only [outgoing, transitions, Transition.leaving_append, Transition.leaving_singleton, ← ihf, ← ihs,
      outgoing_append]
    by_cases hjoin : q = first.stop n
    · subst hjoin
      simp [hstop, outgoing_stop]
    · simp [hjoin, Ne.symm hjoin]
  | alternate first second ihf ihs =>
    obtain ⟨-, hstop⟩ := first.within_stop n
    obtain ⟨hle', hstop'⟩ := second.within_stop (n + first.size)
    have hne : first.stop n ≠ second.stop (n + first.size) := by omega
    simp only [outgoing, transitions, Transition.leaving_append, Transition.leaving_cons, Transition.leaving_nil, ← ihf,
      ← ihs, outgoing_append]
    by_cases hentry : q = n + first.size + second.size
    · have hlow : ¬ q < n + first.size := by omega
      have hapart : first.stop n ≠ q := by omega
      rw [if_pos hentry, if_neg hlow, outgoing_of_le (Nat.le_of_eq hentry.symm)]
      simp [← hentry, hapart, Nat.ne_of_lt (hentry ▸ hstop')]
    by_cases hexit : q = first.stop n
    · subst hexit
      simp [hentry, Ne.symm hentry, hstop, hne.symm, outgoing_stop]
    by_cases hexit' : q = second.stop (n + first.size)
    · subst hexit'
      simp [hentry, Ne.symm hentry, hle', hne, outgoing_stop]
    simp [hentry, hexit, hexit', Ne.symm hentry, Ne.symm hexit, Ne.symm hexit']

/-- The automaton that is laid out by an expression. -/
def layout (e : Expr) : Automaton := ⟨.ofTransitions e.size (e.transitions 0) (e.stop 0), e.start 0, e.stop 0⟩

theorem automaton_eq_layout (e : Expr) : e.automaton = e.layout := by
  have hsize : e.automaton.arena.size = e.size := e.size_automaton
  have harena : e.automaton.arena = .ofTransitions e.size (e.transitions 0) (e.stop 0) := by
    refine Arena.ext_state (hsize.trans (Arena.size_ofTransitions _ _ _).symm) fun q hq => ?_
    rw [state_automaton, Arena.state_ofTransitions (hsize ▸ hq), outgoing_eq_leaving]
  calc e.automaton = ⟨e.automaton.arena, e.automaton.initial, e.automaton.final⟩ := rfl
    _ = e.layout := by rw [harena, initial_automaton, final_automaton, layout]

end Expr

/-- **The construction arrives at the layout**: from the postorder of an expression it builds the states and edges, in the
order of the tables, that the recursion on the expression lays out. -/
theorem Automaton.ofPostfix_eq_layout (e : Expr) : ofPostfix e.postorder = .ok e.layout := by
  rw [ofPostfix_postorder, Expr.automaton_eq_layout]

end PatternAutomata
