import Mathlib.Algebra.BigOperators.Group.Finset.Piecewise
import PatternAutomata.Automaton.Profile
import PatternAutomata.Proofs.Construction
import PatternAutomata.Proofs.Outcome

/-!
# The shape of a built automaton

Which edges leave each state of an automaton that the construction makes, one by one and in order, and what follows for the
automaton as a whole.

* `Expr.outgoing`, `Expr.state_build` — the edges that leave a state, and that the construction makes these;
* `Expr.leads_from_start`, `Expr.leads_to_stop` — every state lies on a way from the entry to the exit;
* `Expr.size_eq_count`, `Expr.edgeCount_build` — states and edges are counted by the tokens;
* `Automaton.normalized_of_ofPostfix` — all this for the automaton of a list of tokens.

The construction adds edges only to states that have none so far: a new one, or the exit of a fragment (`outgoing_stop`). So
the table of a state is what a single operator gave it.
-/

namespace PatternAutomata

open Token

/-! ### Ways -/

namespace Graph

/-- There is a way from one state to the other. -/
def Leads (G : Graph) (p q : Nat) : Prop := ∃ w, Symbol.epsilon ∉ w ∧ G.Path p w q

variable {G H : Graph} {p q r : Nat} {c : Symbol}

theorem Leads.refl (q : Nat) : G.Leads q q := ⟨[], List.not_mem_nil, .refl q⟩

theorem Leads.trans (h : G.Leads p q) (h' : G.Leads q r) : G.Leads p r := by
  obtain ⟨u, hu, hpath⟩ := h
  obtain ⟨v, hv, hpath'⟩ := h'
  exact ⟨u ++ v, List.mem_append.not.mpr (not_or.mpr ⟨hu, hv⟩), hpath.trans hpath'⟩

theorem Leads.mono (hle : ∀ {p c q}, G p c q → H p c q) (h : G.Leads p q) : H.Leads p q := by
  obtain ⟨w, hw, hpath⟩ := h
  exact ⟨w, hw, hpath.mono hle⟩

/-- An edge is a way, which reads its symbol if there is one. -/
theorem Leads.of_edge (h : G p c q) : G.Leads p q := by
  by_cases hc : c = Symbol.epsilon
  · exact ⟨[], List.not_mem_nil, .single_epsilon (hc ▸ h)⟩
  · exact ⟨[c], by simpa [eq_comm] using hc, .read h (.refl q)⟩

end Graph

/-! ### Tables -/

namespace Successors

/-- The table of some edges, added in order. -/
def ofEdges (edges : List (Symbol × Nat)) : Successors :=
  edges.foldl (fun table edge => table.add edge.1 edge.2) ⟨[], List.nodup_nil⟩

theorem edges_ofEdges_singleton (symbol : Symbol) (target : Nat) :
    (ofEdges [(symbol, target)]).edges = [(symbol, target)] := rfl

theorem edges_ofEdges_pair (symbol : Symbol) (target target' : Nat) :
    (ofEdges [(symbol, target), (symbol, target')]).edges = [(symbol, target), (symbol, target')] := by
  simp [ofEdges, add, insertInto, edges]

theorem length_edges_add (table : Successors) (symbol : Symbol) (target : Nat) :
    (table.add symbol target).edges.length = table.edges.length + 1 := by
  obtain ⟨rows, hrows⟩ := table
  simp only [edges, add]
  clear hrows
  induction rows with
  | nil => rfl
  | cons row rest ih =>
    unfold insertInto
    split
    next => simp only [List.flatMap_cons, List.length_append, List.length_map, List.length_singleton]; omega
    next => simp only [List.flatMap_cons, List.length_append, ih]; omega

end Successors

/-! ### Counting edges -/

namespace Arena

/-- The number of edges, where an edge that was added twice counts twice. -/
def edgeCount (arena : Arena) : Nat := ∑ q ∈ Finset.range arena.size, (arena.edges q).length

variable {arena : Arena}

theorem edgeCount_addState : arena.addState.edgeCount = arena.edgeCount := by
  have hnew : arena.addState.edges arena.size = [] := by simp [edges, state_of_size_le]
  have hold : ∀ q, arena.addState.edges q = arena.edges q := fun q => by simp [edges]
  rw [edgeCount, size_addState, Finset.sum_range_succ, hnew, edgeCount]
  simp only [hold, List.length_nil, Nat.add_zero]

theorem edgeCount_addEdge {source : Nat} (h : source < arena.size) (symbol : Symbol) (target : Nat) :
    (arena.addEdge source symbol target).edgeCount = arena.edgeCount + 1 := by
  have hlength : ∀ q, ((arena.addEdge source symbol target).edges q).length =
      (arena.edges q).length + if q = source then 1 else 0 := by
    intro q
    simp only [edges, state_addEdge h]
    split
    next => rw [Successors.length_edges_add]
    next => rfl
  have hone : (∑ q ∈ Finset.range arena.size, if q = source then 1 else 0) = 1 := by
    rw [Finset.sum_ite_eq', if_pos (Finset.mem_range.mpr h)]
  rw [edgeCount, size_addEdge, Finset.sum_congr rfl fun q _ => hlength q, Finset.sum_add_distrib, hone, edgeCount]

theorem edgeCount_setFinal {state : Nat} (h : state < arena.size) (isFinal : Bool) :
    (arena.setFinal state isFinal).edgeCount = arena.edgeCount := by
  have hedges : ∀ q, (arena.setFinal state isFinal).edges q = arena.edges q := by
    intro q
    simp only [edges, state_setFinal h]
    split <;> rfl
  simp only [edgeCount, size_setFinal, hedges]

end Arena

/-! ### What the operations do to states -/

namespace Construction

variable {arena : Arena} {fragment first second : Fragment}

theorem state_concat (h : first.stop < arena.size) (q : Nat) :
    (concat arena first second).1.state q =
      if q = first.stop then
        { arena.state q with successors := (arena.state q).successors.add Symbol.epsilon second.start }
      else arena.state q :=
  Arena.state_addEdge h _ _ q

/-- The new entry and the exit of the operand get the same edges. -/
theorem state_star (h : fragment.stop < arena.size) (q : Nat) :
    (star arena fragment).1.state q =
      if q = arena.size ∨ q = fragment.stop then
        { arena.state q with
          successors :=
            ((arena.state q).successors.add Symbol.epsilon fragment.start).add Symbol.epsilon (arena.size + 1) }
      else arena.state q := by
  simp (disch := (simp only [Arena.size_addEdge, Arena.size_addState]; omega)) only [star, Arena.state_addEdge,
    Arena.state_addState]
  split_ifs <;> first | rfl | omega

theorem state_alternate (h : first.stop < arena.size) (h' : second.stop < arena.size) (hne : first.stop ≠ second.stop)
    (q : Nat) :
    (alternate arena first second).1.state q =
      if q = arena.size then
        { arena.state q with
          successors :=
            ((arena.state q).successors.add Symbol.epsilon first.start).add Symbol.epsilon second.start }
      else if q = first.stop ∨ q = second.stop then
        { arena.state q with successors := (arena.state q).successors.add Symbol.epsilon (arena.size + 1) }
      else arena.state q := by
  simp (disch := (simp only [Arena.size_addEdge, Arena.size_addState]; omega)) only [alternate, Arena.state_addEdge,
    Arena.state_addState]
  split_ifs <;> first | rfl | omega

theorem edgeCount_concat (h : first.stop < arena.size) :
    (concat arena first second).1.edgeCount = arena.edgeCount + 1 :=
  Arena.edgeCount_addEdge h _ _

theorem edgeCount_star (h : fragment.stop < arena.size) :
    (star arena fragment).1.edgeCount = arena.edgeCount + 4 := by
  simp (disch := (simp only [Arena.size_addEdge, Arena.size_addState]; omega)) only [star, Arena.edgeCount_addEdge,
    Arena.edgeCount_addState]

theorem edgeCount_alternate (h : first.stop < arena.size) (h' : second.stop < arena.size) :
    (alternate arena first second).1.edgeCount = arena.edgeCount + 4 := by
  simp (disch := (simp only [Arena.size_addEdge, Arena.size_addState]; omega)) only [alternate, Arena.edgeCount_addEdge,
    Arena.edgeCount_addState]

end Construction

/-! ### The edges of an expression, state by state -/

namespace Expr

/-- The edges that leave a state, in the order of its table, where the states are numbered from `n` on. -/
def outgoing : Expr → Nat → Nat → List (Symbol × Nat)
  | literal symbol, n, q => if q = n then [(symbol, n + 1)] else []
  | star inner, n, q =>
    if q = n + inner.size ∨ q = inner.stop n then
      [(Symbol.epsilon, inner.start n), (Symbol.epsilon, n + inner.size + 1)]
    else inner.outgoing n q
  | concat first second, n, q =>
    if q = first.stop n then [(Symbol.epsilon, second.start (n + first.size))]
    else if q < n + first.size then first.outgoing n q
    else second.outgoing (n + first.size) q
  | alternate first second, n, q =>
    if q = n + first.size + second.size then
      [(Symbol.epsilon, first.start n), (Symbol.epsilon, second.start (n + first.size))]
    else if q = first.stop n ∨ q = second.stop (n + first.size) then
      [(Symbol.epsilon, n + first.size + second.size + 1)]
    else if q < n + first.size then first.outgoing n q
    else second.outgoing (n + first.size) q

variable {e : Expr} {n p q : Nat} {c : Symbol}

theorem outgoing_of_le (h : n + e.size ≤ q) : e.outgoing n q = [] := by
  induction e generalizing n with
  | literal symbol =>
    rw [size] at h
    exact if_neg (by omega)
  | star inner ih =>
    obtain ⟨-, hstop⟩ := inner.within_stop n
    rw [size] at h
    rw [outgoing, if_neg (by omega), ih (by omega)]
  | concat first second ihf ihs =>
    obtain ⟨-, hstop⟩ := first.within_stop n
    rw [size] at h
    rw [outgoing, if_neg (by omega), if_neg (by omega), ihs (by omega)]
  | alternate first second ihf ihs =>
    obtain ⟨-, hstop⟩ := first.within_stop n
    obtain ⟨-, hstop'⟩ := second.within_stop (n + first.size)
    rw [size] at h
    rw [outgoing, if_neg (by omega), if_neg (by omega), if_neg (by omega), ihs (by omega)]

theorem outgoing_of_lt (h : q < n) : e.outgoing n q = [] := by
  induction e generalizing n with
  | literal symbol => exact if_neg (by omega)
  | star inner ih =>
    obtain ⟨hstop, -⟩ := inner.within_stop n
    rw [outgoing, if_neg (by omega), ih h]
  | concat first second ihf ihs =>
    obtain ⟨hstop, -⟩ := first.within_stop n
    rw [outgoing, if_neg (by omega), if_pos (by omega), ihf h]
  | alternate first second ihf ihs =>
    obtain ⟨hstop, -⟩ := first.within_stop n
    obtain ⟨hstop', -⟩ := second.within_stop (n + first.size)
    rw [outgoing, if_neg (by omega), if_neg (by omega), if_pos (by omega), ihf h]

/-- No edge leaves the exit, so an operator that goes on from there adds to an empty table. -/
theorem outgoing_stop (e : Expr) (n : Nat) : e.outgoing n (e.stop n) = [] := by
  induction e generalizing n with
  | literal symbol => exact if_neg (by rw [stop]; omega)
  | star inner ih =>
    obtain ⟨-, hstop⟩ := inner.within_stop n
    rw [outgoing, stop, if_neg (by omega), outgoing_of_le (by omega)]
  | concat first second ihf ihs =>
    obtain ⟨-, hstop⟩ := first.within_stop n
    obtain ⟨hstop', -⟩ := second.within_stop (n + first.size)
    rw [outgoing, stop, if_neg (by omega), if_neg (by omega), ihs]
  | alternate first second ihf ihs =>
    obtain ⟨-, hstop⟩ := first.within_stop n
    obtain ⟨-, hstop'⟩ := second.within_stop (n + first.size)
    rw [outgoing, stop, if_neg (by omega), if_neg (by omega), if_neg (by omega), outgoing_of_le (by omega)]

/-- **The construction of an expression** adds its states behind those of the arena, which stay as they are. -/
theorem state_build (e : Expr) (arena : Arena) (q : Nat) :
    (e.build arena).1.state q =
      if q < arena.size then arena.state q else { successors := .ofEdges (e.outgoing arena.size q) } := by
  induction e generalizing arena q with
  | literal symbol =>
    have hsize : arena.size < arena.addState.addState.size := by simp only [Arena.size_addState]; omega
    rw [build, Arena.state_addEdge hsize, Arena.state_addState, Arena.state_addState, outgoing]
    split_ifs with hq hlt
    · omega
    · rw [hq, Arena.state_of_size_le (Nat.le_refl _)]
      rfl
    · rfl
    · rw [Arena.state_of_size_le (by omega)]
      rfl
  | star inner ih =>
    obtain ⟨hle, -⟩ := inner.within_stop arena.size
    simp only [build]
    rw [Construction.state_star (inner.stop_lt_size_build arena), ih, snd_build, size_build, outgoing]
    dsimp only
    split_ifs with hq hlow
    · omega
    · rcases hq with rfl | rfl
      · rw [outgoing_of_le (Nat.le_refl _)]
        rfl
      · rw [outgoing_stop]
        rfl
    · rfl
    · rfl
  | concat first second ihf ihs =>
    obtain ⟨hle, hlt⟩ := first.within_stop arena.size
    simp only [build]
    rw [Construction.state_concat (first.stop_lt_size_build_build second arena), ihs, ihf, snd_build, snd_build, size_build,
      outgoing]
    dsimp only
    split_ifs with hq hfirst hlow
    · omega
    · rw [hq, outgoing_stop]
      rfl
    all_goals first | rfl | omega
  | alternate first second ihf ihs =>
    obtain ⟨hle, hlt⟩ := first.within_stop arena.size
    obtain ⟨hle', hlt'⟩ := second.within_stop (arena.size + first.size)
    have hne : first.stop arena.size ≠ second.stop (arena.size + first.size) := by omega
    simp only [build]
    rw [Construction.state_alternate (first.stop_lt_size_build_build second arena) (second.stop_lt_size_build _)
        (by rw [snd_build, snd_build, size_build]; exact hne),
      ihs, ihf, snd_build, snd_build, size_build, size_build, outgoing]
    dsimp only
    by_cases hlow : q < arena.size
    · rw [if_neg (by omega), if_neg (by omega), if_pos (Nat.lt_add_right _ hlow), if_pos hlow, if_pos hlow]
    rw [if_neg hlow, if_neg hlow]
    by_cases hentry : q = arena.size + first.size + second.size
    · rw [if_pos hentry, if_pos hentry, if_neg (by omega), outgoing_of_le (by omega)]
      rfl
    rw [if_neg hentry, if_neg hentry]
    by_cases hexit : q = first.stop arena.size ∨ q = second.stop (arena.size + first.size)
    · rw [if_pos hexit, if_pos hexit]
      rcases hexit with rfl | rfl
      · rw [if_pos hlt, outgoing_stop]
        rfl
      · rw [if_neg (by omega), outgoing_stop]
        rfl
    rw [if_neg hexit, if_neg hexit]
    split <;> rfl

/-- The exit apart, one edge leaves every state, or two different ones leave it without reading. -/
theorem outgoing_cases (h : e.Within n q) (hne : q ≠ e.stop n) :
    (∃ edge, e.outgoing n q = [edge]) ∨
      ∃ r r', r ≠ r' ∧ e.outgoing n q = [(Symbol.epsilon, r), (Symbol.epsilon, r')] := by
  induction e generalizing n with
  | literal symbol =>
    have hq : q = n := by simp only [Within, size, stop] at *; omega
    exact Or.inl ⟨_, if_pos hq⟩
  | star inner ih =>
    obtain ⟨-, hlt⟩ := inner.within_start n
    rw [outgoing]
    split
    next => exact Or.inr ⟨_, _, by omega, rfl⟩
    next hq => exact ih (by simp only [Within, size, stop] at *; omega) fun hstop => hq (Or.inr hstop)
  | concat first second ihf ihs =>
    rw [outgoing]
    split
    next => exact Or.inl ⟨_, rfl⟩
    next hq =>
      split
      next hlt => exact ihf ⟨h.1, hlt⟩ hq
      next hge => exact ihs (by simp only [Within, size] at *; omega) hne
  | alternate first second ihf ihs =>
    obtain ⟨-, hlt⟩ := first.within_start n
    obtain ⟨hle, -⟩ := second.within_start (n + first.size)
    rw [outgoing]
    split
    next => exact Or.inr ⟨_, _, by omega, rfl⟩
    next hentry =>
      split
      next => exact Or.inl ⟨_, rfl⟩
      next hexit =>
        rw [not_or] at hexit
        split
        next hlt => exact ihf ⟨h.1, hlt⟩ hexit.1
        next hge => exact ihs (by simp only [Within, size, stop] at *; omega) hexit.2

/-! ### Ways through an expression -/

/-- No edge leads to the entry. -/
theorem not_graph_start : ¬ e.graph n p c (e.start n) := by
  induction e generalizing n with
  | literal symbol =>
    rintro ⟨-, -, h⟩
    simp [start] at h
  | star inner ih =>
    obtain ⟨-, hlt⟩ := inner.within_start n
    rintro (h | ⟨-, -, h | h⟩)
    · have := (graph_bounds h).2
      simp only [start, Within] at this
      omega
    all_goals simp only [start] at h; omega
  | concat first second ihf ihs =>
    obtain ⟨-, hlt⟩ := first.within_start n
    obtain ⟨hle, -⟩ := second.within_start (n + first.size)
    rintro (h | h | ⟨-, -, h⟩)
    · exact ihf h
    · have := (graph_bounds h).2
      simp only [start, Within] at this
      omega
    · simp only [start] at h
      omega
  | alternate first second ihf ihs =>
    obtain ⟨-, hlt⟩ := first.within_start n
    obtain ⟨-, hlt'⟩ := second.within_start (n + first.size)
    rintro (h | h | ⟨-, -, h | h⟩ | ⟨-, -, h⟩)
    · have := (graph_bounds h).2
      simp only [start, Within] at this
      omega
    · have := (graph_bounds h).2
      simp only [start, Within] at this
      omega
    all_goals simp only [start] at h; omega

section Ways

variable {f : Expr}

theorem within_star_iff : (star e).Within n q ↔ e.Within n q ∨ q = n + e.size ∨ q = n + e.size + 1 := by
  simp only [Within, size]
  omega

theorem within_concat_iff : (concat e f).Within n q ↔ e.Within n q ∨ f.Within (n + e.size) q := by
  simp only [Within, size]
  omega

theorem within_alternate_iff : (alternate e f).Within n q ↔
    e.Within n q ∨ f.Within (n + e.size) q ∨ q = n + e.size + f.size ∨ q = n + e.size + f.size + 1 := by
  simp only [Within, size]
  omega

theorem leads_star (h : (e.graph n).Leads p q) : ((star e).graph n).Leads p q := h.mono Or.inl

theorem leads_concat_first (h : (e.graph n).Leads p q) : ((concat e f).graph n).Leads p q := h.mono Or.inl

theorem leads_concat_second (h : (f.graph (n + e.size)).Leads p q) : ((concat e f).graph n).Leads p q :=
  h.mono fun hedge => Or.inr (Or.inl hedge)

theorem leads_alternate_first (h : (e.graph n).Leads p q) : ((alternate e f).graph n).Leads p q := h.mono Or.inl

theorem leads_alternate_second (h : (f.graph (n + e.size)).Leads p q) : ((alternate e f).graph n).Leads p q :=
  h.mono fun hedge => Or.inr (Or.inl hedge)

/-- From the entry and from the exit of the operand, a star goes to another round or to its own exit. -/
theorem leads_star_round (hp : p = n + e.size ∨ p = e.stop n) (hq : q = e.start n ∨ q = n + e.size + 1) :
    ((star e).graph n).Leads p q :=
  .of_edge (Or.inr ⟨hp, rfl, hq⟩)

theorem leads_concat_join : ((concat e f).graph n).Leads (e.stop n) (f.start (n + e.size)) :=
  .of_edge (Or.inr (Or.inr ⟨rfl, rfl, rfl⟩))

theorem leads_alternate_entry (hq : q = e.start n ∨ q = f.start (n + e.size)) :
    ((alternate e f).graph n).Leads (n + e.size + f.size) q :=
  .of_edge (Or.inr (Or.inr (Or.inl ⟨rfl, rfl, hq⟩)))

theorem leads_alternate_exit (hp : p = e.stop n ∨ p = f.stop (n + e.size)) :
    ((alternate e f).graph n).Leads p (n + e.size + f.size + 1) :=
  .of_edge (Or.inr (Or.inr (Or.inr ⟨hp, rfl, rfl⟩)))

/-- **Every state is reached from the entry.** -/
theorem leads_from_start (h : e.Within n q) : (e.graph n).Leads (e.start n) q := by
  induction e generalizing n q with
  | literal symbol =>
    have hq : q = n ∨ q = n + 1 := by simp only [Within, size] at h; omega
    rcases hq with rfl | rfl
    · exact .refl _
    · exact .of_edge ⟨rfl, rfl, rfl⟩
  | star inner ih =>
    rcases within_star_iff.mp h with hq | rfl | rfl
    · exact (leads_star_round (Or.inl rfl) (Or.inl rfl)).trans (leads_star (ih hq))
    · exact .refl _
    · exact leads_star_round (Or.inl rfl) (Or.inr rfl)
  | concat first second ihf ihs =>
    rcases within_concat_iff.mp h with hq | hq
    · exact leads_concat_first (ihf hq)
    · have hfirst := leads_concat_first (f := second) (ihf (first.within_stop n))
      exact hfirst.trans (leads_concat_join.trans (leads_concat_second (ihs hq)))
  | alternate first second ihf ihs =>
    rcases within_alternate_iff.mp h with hq | hq | rfl | rfl
    · exact (leads_alternate_entry (Or.inl rfl)).trans (leads_alternate_first (ihf hq))
    · exact (leads_alternate_entry (Or.inr rfl)).trans (leads_alternate_second (ihs hq))
    · exact .refl _
    · have hfirst := leads_alternate_first (f := second) (ihf (first.within_stop n))
      exact (leads_alternate_entry (Or.inl rfl)).trans (hfirst.trans (leads_alternate_exit (Or.inl rfl)))

/-- **The exit is reached from every state.** -/
theorem leads_to_stop (h : e.Within n q) : (e.graph n).Leads q (e.stop n) := by
  induction e generalizing n q with
  | literal symbol =>
    have hq : q = n ∨ q = n + 1 := by simp only [Within, size] at h; omega
    rcases hq with rfl | rfl
    · exact .of_edge ⟨rfl, rfl, rfl⟩
    · exact .refl _
  | star inner ih =>
    rcases within_star_iff.mp h with hq | rfl | rfl
    · exact (leads_star (ih hq)).trans (leads_star_round (Or.inr rfl) (Or.inr rfl))
    · exact leads_star_round (Or.inl rfl) (Or.inr rfl)
    · exact .refl _
  | concat first second ihf ihs =>
    rcases within_concat_iff.mp h with hq | hq
    · have hsecond := leads_concat_second (e := first) (ihs (second.within_start (n + first.size)))
      exact (leads_concat_first (ihf hq)).trans (leads_concat_join.trans hsecond)
    · exact leads_concat_second (ihs hq)
  | alternate first second ihf ihs =>
    rcases within_alternate_iff.mp h with hq | hq | rfl | rfl
    · exact (leads_alternate_first (ihf hq)).trans (leads_alternate_exit (Or.inl rfl))
    · exact (leads_alternate_second (ihs hq)).trans (leads_alternate_exit (Or.inr rfl))
    · have hfirst := leads_alternate_first (f := second) (ihf (first.within_start n))
      exact (leads_alternate_entry (Or.inl rfl)).trans (hfirst.trans (leads_alternate_exit (Or.inl rfl)))
    · exact .refl _

end Ways

/-! ### Numbers of states and edges -/

theorem size_eq_count (e : Expr) :
    e.size = 2 * (e.postorder.countP isLiteral + e.postorder.count (.operator .alternate) +
      e.postorder.count (.operator .star)) := by
  induction e with
  | literal symbol => rfl
  | star inner ih =>
    simp [size, postorder, ih, isLiteral]
    omega
  | concat first second ihf ihs =>
    simp [size, postorder, ihf, ihs, isLiteral]
    omega
  | alternate first second ihf ihs =>
    simp [size, postorder, ihf, ihs, isLiteral]
    omega

theorem edgeCount_build (e : Expr) (arena : Arena) :
    (e.build arena).1.edgeCount = arena.edgeCount + (e.postorder.countP isLiteral +
      e.postorder.count (.operator .concat) +
      4 * (e.postorder.count (.operator .alternate) + e.postorder.count (.operator .star))) := by
  induction e generalizing arena with
  | literal symbol =>
    have hsize : arena.size < arena.addState.addState.size := by simp only [Arena.size_addState]; omega
    rw [build, Arena.edgeCount_addEdge hsize, Arena.edgeCount_addState, Arena.edgeCount_addState]
    rfl
  | star inner ih =>
    simp only [build]
    rw [Construction.edgeCount_star (inner.stop_lt_size_build arena), ih]
    simp [postorder, isLiteral]
    omega
  | concat first second ihf ihs =>
    simp only [build]
    rw [Construction.edgeCount_concat (first.stop_lt_size_build_build second arena), ihs, ihf]
    simp [postorder, isLiteral]
    omega
  | alternate first second ihf ihs =>
    simp only [build]
    rw [Construction.edgeCount_alternate (first.stop_lt_size_build_build second arena) (second.stop_lt_size_build _), ihs,
      ihf]
    simp [postorder, isLiteral]
    omega

/-! ### The automaton -/

theorem final_automaton (e : Expr) : e.automaton.final = e.stop 0 := by simp [automaton, snd_build]

theorem state_automaton (e : Expr) (q : Nat) :
    e.automaton.arena.state q = { isFinal := q == e.stop 0, successors := .ofEdges (e.outgoing 0 q) } := by
  have hstate : (e.build #[]).1.state q = { successors := .ofEdges (e.outgoing 0 q) } := e.state_build #[] q
  have hstop : (e.build #[]).2.stop = e.stop 0 := by rw [snd_build]; rfl
  simp only [automaton]
  rw [Arena.state_setFinal (e.stop_lt_size_build #[]), hstate, hstop]
  by_cases hq : q = e.stop 0 <;> simp [hq]

theorem edges_automaton (e : Expr) (q : Nat) :
    e.automaton.arena.edges q = (Successors.ofEdges (e.outgoing 0 q)).edges := by
  rw [Arena.edges, state_automaton]

theorem leads_automaton_iff {e : Expr} {p q : Nat} : e.automaton.arena.graph.Leads p q ↔ (e.graph 0).Leads p q :=
  ⟨Graph.Leads.mono e.graph_automaton.mp, Graph.Leads.mono e.graph_automaton.mpr⟩

theorem within_zero_iff {e : Expr} {q : Nat} : e.Within 0 q ↔ q < e.automaton.size := by
  rw [size_automaton, Within, Nat.zero_add]
  exact and_iff_right (Nat.zero_le q)

end Expr

/-- An automaton that is entered and left at one state each, where every state lies on a way between the two, and a single
edge or a choice without reading leads on from each state but the last. -/
structure Automaton.Normalized (A : Automaton) : Prop where
  initial_lt : A.initial < A.size
  final_lt : A.final < A.size
  isFinal_iff : ∀ q, A.arena.isFinal q = true ↔ q = A.final
  not_entered : ∀ p c, ¬ A.arena.graph p c A.initial
  not_left : ∀ c q, ¬ A.arena.graph A.final c q
  closed : A.arena.Closed
  edges_cases : ∀ q < A.size, q ≠ A.final →
    (∃ edge, A.arena.edges q = [edge]) ∨
      ∃ r r', r ≠ r' ∧ A.arena.edges q = [(Symbol.epsilon, r), (Symbol.epsilon, r')]
  reachable : ∀ q < A.size, A.arena.graph.Leads A.initial q
  coreachable : ∀ q < A.size, A.arena.graph.Leads q A.final

theorem Expr.normalized_automaton (e : Expr) : e.automaton.Normalized where
  initial_lt := e.initial_lt_size_automaton
  final_lt := by
    rw [final_automaton]
    exact within_zero_iff.mp (e.within_stop 0)
  isFinal_iff q := by rw [final_automaton, isFinal_automaton]
  not_entered p c := by
    rw [initial_automaton, graph_automaton]
    exact not_graph_start
  not_left c q := by
    rw [final_automaton, graph_automaton]
    exact not_graph_stop
  closed := e.closed_automaton
  edges_cases q hq hne := by
    rw [final_automaton] at hne
    rw [edges_automaton]
    rcases outgoing_cases (within_zero_iff.mpr hq) hne with ⟨⟨c, r⟩, h⟩ | ⟨r, r', hr, h⟩
    · exact Or.inl ⟨(c, r), by rw [h, Successors.edges_ofEdges_singleton]⟩
    · exact Or.inr ⟨r, r', hr, by rw [h, Successors.edges_ofEdges_pair]⟩
  reachable q hq := by
    rw [initial_automaton, leads_automaton_iff]
    exact leads_from_start (within_zero_iff.mpr hq)
  coreachable q hq := by
    rw [final_automaton, leads_automaton_iff]
    exact leads_to_stop (within_zero_iff.mpr hq)

theorem Expr.edgeCount_automaton (e : Expr) :
    e.automaton.arena.edgeCount = e.postorder.countP isLiteral + e.postorder.count (.operator .concat) +
      4 * (e.postorder.count (.operator .alternate) + e.postorder.count (.operator .star)) := by
  have hempty : Arena.edgeCount #[] = 0 := rfl
  simp only [automaton]
  rw [Arena.edgeCount_setFinal (e.stop_lt_size_build #[]), edgeCount_build, hempty, Nat.zero_add]

namespace Automaton

/-- **The shape of the automaton of a list of tokens**: it is normalized, its states are labelled by their positions, and
there are as many states and edges as the tokens say. -/
theorem normalized_of_ofPostfix {ts : List Token} {A : Automaton} (h : ofPostfix ts = .ok A) :
    A.Normalized ∧
      A.profile.states.map StateProfile.label = (List.range A.size).map Nat.cast ∧
      A.size = 2 * (ts.countP isLiteral + ts.count (.operator .alternate) + ts.count (.operator .star)) ∧
      A.arena.edgeCount = ts.countP isLiteral + ts.count (.operator .concat) +
        4 * (ts.count (.operator .alternate) + ts.count (.operator .star)) := by
  obtain ⟨e, rfl, rfl⟩ := ofPostfix_eq_ok_iff.mp h
  refine ⟨e.normalized_automaton, ?_, ?_, e.edgeCount_automaton⟩
  · simp [profile, stateProfile]
  · rw [e.size_automaton, e.size_eq_count]

/-- A star in a star, next to a literal that is followed without reading. -/
theorem normalized_of_ofPostfix_nested :
    let ts : List Token := [.literal ['a'], .operator .star, .operator .star, .literal [], .operator .alternate]
    ∃ A, ofPostfix ts = .ok A ∧ A.Normalized ∧ A.size = 10 ∧ A.arena.edgeCount = 14 := by
  intro ts
  have hok : ∃ A, ofPostfix ts = .ok A := ⟨_, rfl⟩
  obtain ⟨A, hok⟩ := hok
  obtain ⟨hnormalized, -, hsize, hedges⟩ := normalized_of_ofPostfix hok
  exact ⟨A, hok, hnormalized, hsize, hedges⟩

end Automaton
end PatternAutomata
