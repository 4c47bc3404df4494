import PatternAutomata.Automaton.Construction
import PatternAutomata.Proofs.Fragment
import PatternAutomata.Proofs.Simulation

/-!
# Construction keeps the meaning

The construction, which works on a stack of fragments, builds from the postorder of an expression the fragment of this
expression, and it succeeds on no other lists of tokens.

* `Expr.foldlM_step_postorder` — what the construction makes of the postorder of an expression, whatever it has made before;
* `Automaton.ofPostfix_eq_ok_iff` — it succeeds exactly on postorders;
* `Automaton.accepts_iff_of_ofPostfix` — the automaton accepts the words of the expression.
-/

namespace PatternAutomata

/-! ### What the operations add -/

namespace Construction

variable {arena : Arena} {fragment first second : Fragment} {p q : Nat} {c : Symbol}

theorem graph_concat (h : first.stop < arena.size) :
    (concat arena first second).1.graph p c q ↔
      arena.graph p c q ∨ (p = first.stop ∧ c = Symbol.epsilon ∧ q = second.start) :=
  Arena.graph_addEdge h

theorem graph_alternate (h : first.stop < arena.size) (h' : second.stop < arena.size) :
    (alternate arena first second).1.graph p c q ↔
      arena.graph p c q ∨
        (p = arena.size ∧ c = Symbol.epsilon ∧ (q = first.start ∨ q = second.start)) ∨
        (p = first.stop ∨ p = second.stop) ∧ c = Symbol.epsilon ∧ q = arena.size + 1 := by
  simp (disch := (simp only [Arena.size_addEdge, Arena.size_addState]; omega)) only [alternate, Arena.graph_addEdge,
    Arena.graph_addState]
  tauto

theorem graph_star (h : fragment.stop < arena.size) :
    (star arena fragment).1.graph p c q ↔
      arena.graph p c q ∨
        (p = arena.size ∨ p = fragment.stop) ∧ c = Symbol.epsilon ∧ (q = fragment.start ∨ q = arena.size + 1) := by
  simp (disch := (simp only [Arena.size_addEdge, Arena.size_addState]; omega)) only [star, Arena.graph_addEdge,
    Arena.graph_addState]
  tauto

/-! ### Steps -/

section Steps

variable {source : Text} {rest : List Fragment} {index : Nat}

theorem step_star :
    step source ⟨arena, fragment :: rest⟩ (.operator .star, index) =
      .ok ⟨(star arena fragment).1, (star arena fragment).2 :: rest⟩ := by
  simp only [step, join?]

theorem step_concat :
    step source ⟨arena, second :: first :: rest⟩ (.operator .concat, index) =
      .ok ⟨(concat arena first second).1, (concat arena first second).2 :: rest⟩ := by
  simp only [step, join?]

theorem step_alternate :
    step source ⟨arena, second :: first :: rest⟩ (.operator .alternate, index) =
      .ok ⟨(alternate arena first second).1, (alternate arena first second).2 :: rest⟩ := by
  simp only [step, join?]

end Steps

end Construction

/-! ### The construction of an expression -/

namespace Expr

/-- The arena with the states of an expression behind its own, and the fragment that they make. -/
def build : Expr → Arena → Arena × Fragment
  | literal symbol, arena =>
    (arena.addState.addState.addEdge arena.size symbol (arena.size + 1), ⟨arena.size, arena.size + 1⟩)
  | star inner, arena =>
    let (arena, fragment) := inner.build arena
    Construction.star arena fragment
  | concat first second, arena =>
    let (arena, fragment) := first.build arena
    let (arena, fragment') := second.build arena
    Construction.concat arena fragment fragment'
  | alternate first second, arena =>
    let (arena, fragment) := first.build arena
    let (arena, fragment') := second.build arena
    Construction.alternate arena fragment fragment'

theorem size_build (e : Expr) (arena : Arena) : (e.build arena).1.size = arena.size + e.size := by
  induction e generalizing arena with
  | literal symbol => simp [build, size]
  | star inner ih => simp only [build, Construction.star, Arena.size_addEdge, Arena.size_addState, ih, size]; omega
  | concat first second ihf ihs => simp only [build, Construction.concat, Arena.size_addEdge, ihf, ihs, size]; omega
  | alternate first second ihf ihs =>
    simp only [build, Construction.alternate, Arena.size_addEdge, Arena.size_addState, ihf, ihs, size]
    omega

theorem snd_build (e : Expr) (arena : Arena) : (e.build arena).2 = ⟨e.start arena.size, e.stop arena.size⟩ := by
  induction e generalizing arena with
  | literal symbol => rfl
  | star inner ih => simp only [build, Construction.star, size_build, start, stop]
  | concat first second ihf ihs => simp only [build, Construction.concat, ihf, ihs, size_build, start, stop]
  | alternate first second ihf ihs =>
    simp only [build, Construction.alternate, size_build, start, stop]

theorem stop_lt_size_build (e : Expr) (arena : Arena) : (e.build arena).2.stop < (e.build arena).1.size := by
  rw [snd_build, size_build]
  exact (e.within_stop arena.size).2

/-- The exit of an operand is still there when the next one is built. -/
theorem stop_lt_size_build_build (e f : Expr) (arena : Arena) :
    (e.build arena).2.stop < (f.build (e.build arena).1).1.size := by
  rw [f.size_build]
  exact Nat.lt_add_right _ (e.stop_lt_size_build arena)

theorem isFinal_build (e : Expr) (arena : Arena) (q : Nat) : (e.build arena).1.isFinal q = arena.isFinal q := by
  induction e generalizing arena with
  | literal symbol => simp [build]
  | star inner ih => simp [build, Construction.star, ih]
  | concat first second ihf ihs => simp [build, Construction.concat, ihf, ihs]
  | alternate first second ihf ihs => simp [build, Construction.alternate, ihf, ihs]

/-- The edges of the expression are added, the others stay as they are. -/
theorem graph_build {e : Expr} {arena : Arena} {p q : Nat} {c : Symbol} :
    (e.build arena).1.graph p c q ↔ arena.graph p c q ∨ e.graph arena.size p c q := by
  induction e generalizing arena with
  | literal symbol =>
    have hsize : arena.size < arena.addState.addState.size := by
      simp only [Arena.size_addState]
      omega
    rw [build, Arena.graph_addEdge hsize, Arena.graph_addState, Arena.graph_addState]
    rfl
  | star inner ih =>
    simp only [build]
    rw [Construction.graph_star (inner.stop_lt_size_build arena), ih, snd_build, size_build, or_assoc]
    rfl
  | concat first second ihf ihs =>
    simp only [build]
    rw [Construction.graph_concat (first.stop_lt_size_build_build second arena), ihs, ihf, snd_build, snd_build, size_build,
      or_assoc, or_assoc]
    rfl
  | alternate first second ihf ihs =>
    simp only [build]
    rw [Construction.graph_alternate (first.stop_lt_size_build_build second arena) (second.stop_lt_size_build _), ihs, ihf,
      snd_build, snd_build, or_assoc, or_assoc]
    simp only [size_build]
    rfl

/-- **The construction of a postorder**, after any other tokens and with any fragments waiting. -/
theorem foldlM_step_postorder (source : Text) (e : Expr) (k : Construction) (i : Nat) :
    (e.postorder.zipIdx i).foldlM (Construction.step source) k =
      .ok ⟨(e.build k.arena).1, (e.build k.arena).2 :: k.pending⟩ := by
  induction e generalizing k i with
  | literal symbol => rfl
  | star inner ih =>
    rw [postorder, List.zipIdx_append, List.foldlM_append, ih]
    simp only [bind, Except.bind, List.zipIdx_cons, List.zipIdx_nil, List.foldlM_cons, List.foldlM_nil,
      Construction.step_star]
    rfl
  | concat first second ihf ihs =>
    rw [postorder, List.zipIdx_append, List.zipIdx_append, List.foldlM_append, List.foldlM_append, ihf]
    simp only [bind, Except.bind, ihs, List.zipIdx_cons, List.zipIdx_nil, List.foldlM_cons, List.foldlM_nil,
      Construction.step_concat]
    rfl
  | alternate first second ihf ihs =>
    rw [postorder, List.zipIdx_append, List.zipIdx_append, List.foldlM_append, List.foldlM_append, ihf]
    simp only [bind, Except.bind, ihs, List.zipIdx_cons, List.zipIdx_nil, List.foldlM_cons, List.foldlM_nil,
      Construction.step_alternate]
    rfl

/-- A step that succeeds is one that a stack of as many expressions can take as well. -/
theorem exists_take_of_step {source : Text} {k k' : Construction} {t : Token} {i : Nat} {es : List Expr}
    (h : Construction.step source k (t, i) = .ok k') (hlen : es.length = k.pending.length) :
    ∃ es', take? es t = some es' ∧ es'.length = k'.pending.length := by
  obtain ⟨arena, pending⟩ := k
  cases t with
  | literal symbol =>
    cases h
    exact ⟨literal symbol :: es, rfl, congrArg Nat.succ hlen⟩
  | operator o =>
    rcases pending with _ | ⟨second, _ | ⟨first, rest⟩⟩ <;> cases o <;>
      simp only [Construction.step, Construction.join?, Except.ok.injEq, reduceCtorEq] at h
    · obtain ⟨e, rfl⟩ := List.length_eq_one_iff.mp hlen
      subst h
      exact ⟨[star e], rfl, rfl⟩
    all_goals
      obtain ⟨e, es, rfl⟩ := List.exists_cons_of_length_eq_add_one hlen
      obtain ⟨f, es, rfl⟩ := List.exists_cons_of_length_eq_add_one (Nat.succ.inj hlen)
      subst h
      simpa [take?] using hlen
  | foreign value => cases h

theorem exists_foldlM_take_of_foldlM_step {source : Text} {ts : List Token} {i : Nat} {k k' : Construction}
    {es : List Expr} (h : (ts.zipIdx i).foldlM (Construction.step source) k = .ok k')
    (hlen : es.length = k.pending.length) :
    ∃ es', ts.foldlM take? es = some es' ∧ es'.length = k'.pending.length := by
  induction ts generalizing i k es with
  | nil =>
    cases h
    exact ⟨es, rfl, hlen⟩
  | cons t ts ih =>
    rw [List.zipIdx_cons, List.foldlM_cons] at h
    cases hstep : Construction.step source k (t, i) with
    | error e => rw [hstep] at h; cases h
    | ok mid =>
      rw [hstep] at h
      obtain ⟨es', htake, hlen'⟩ := exists_take_of_step hstep hlen
      obtain ⟨es'', hrest, hlen''⟩ := ih h hlen'
      exact ⟨es'', by rw [List.foldlM_cons, htake]; exact hrest, hlen''⟩

/-- The automaton of an expression. -/
def automaton (e : Expr) : Automaton :=
  let (arena, whole) := e.build #[]
  ⟨arena.setFinal whole.stop true, whole.start, whole.stop⟩

end Expr

/-! ### The automaton of a list of tokens -/

namespace Automaton

theorem ofPostfix_postorder (e : Expr) : ofPostfix e.postorder = .ok e.automaton := by
  have hne : e.postorder.isEmpty = false := by cases e <;> simp [Expr.postorder]
  rw [ofPostfix, hne, Construction.run, Expr.foldlM_step_postorder]
  rfl

theorem exists_postorder_of_ofPostfix {ts : List Token} {A : Automaton} (h : ofPostfix ts = .ok A) :
    ∃ e : Expr, e.postorder = ts := by
  unfold ofPostfix at h
  split at h
  · cases h
  · split at h
    · cases h
    next arena whole hrun =>
      obtain ⟨es, htake, hlen⟩ := Expr.exists_foldlM_take_of_foldlM_step hrun (rfl : [].length = 0)
      obtain ⟨e, rfl⟩ := List.length_eq_one_iff.mp hlen
      exact ⟨e, by simpa using Expr.flatMap_postorder_of_foldlM_take htake⟩
    · cases h

/-- The construction succeeds on the postorders of expressions and on nothing else. -/
theorem ofPostfix_eq_ok_iff {ts : List Token} {A : Automaton} :
    ofPostfix ts = .ok A ↔ ∃ e : Expr, e.postorder = ts ∧ e.automaton = A := by
  constructor
  · intro h
    obtain ⟨e, rfl⟩ := exists_postorder_of_ofPostfix h
    rw [ofPostfix_postorder] at h
    exact ⟨e, rfl, Except.ok.inj h⟩
  · rintro ⟨e, rfl, rfl⟩
    exact ofPostfix_postorder e

end Automaton

namespace Expr

variable (e : Expr)

theorem size_automaton : e.automaton.size = e.size := by
  simp [automaton, Automaton.size, size_build]

theorem initial_automaton : e.automaton.initial = e.start 0 := by simp [automaton, snd_build]

/-- The edges of the automaton are those of the expression. -/
theorem graph_automaton {p q : Nat} {c : Symbol} : e.automaton.arena.graph p c q ↔ e.graph 0 p c q := by
  simp only [automaton]
  rw [Arena.graph_setFinal (e.stop_lt_size_build #[]), graph_build]
  exact or_iff_right Arena.graph_empty

/-- Only the exit is final. -/
theorem isFinal_automaton {q : Nat} : e.automaton.arena.isFinal q = true ↔ q = e.stop 0 := by
  simp only [automaton]
  rw [Arena.isFinal_setFinal (e.stop_lt_size_build #[]), isFinal_build, snd_build]
  split
  next h => simpa using h
  next h => simpa [Arena.isFinal, Arena.state_eq] using h

theorem closed_automaton : e.automaton.arena.Closed := by
  rw [Arena.closed_iff]
  intro p c q hedge
  have hbounds := (graph_bounds (e.graph_automaton.mp hedge)).2.2
  have hsize := e.size_automaton
  simp only [Automaton.size] at hsize
  omega

theorem initial_lt_size_automaton : e.automaton.initial < e.automaton.size := by
  rw [size_automaton, initial_automaton]
  simpa using (e.within_start 0).2

theorem path_automaton_iff {p q : Nat} {w : Word} :
    e.automaton.arena.graph.Path p w q ↔ (e.graph 0).Path p w q :=
  ⟨Graph.Path.mono e.graph_automaton.mp, Graph.Path.mono e.graph_automaton.mpr⟩

theorem accepts_automaton_iff {w : Word} (hw : Symbol.epsilon ∉ w) : e.automaton.accepts w = true ↔ w ∈ e.language := by
  rw [Automaton.accepts_iff_path e.closed_automaton e.initial_lt_size_automaton, ← path_iff_mem_language (n := 0) hw]
  simp only [isFinal_automaton, exists_eq_right, path_automaton_iff, initial_automaton]

end Expr

/-- **The automaton of a list of tokens accepts the words of the one expression that the tokens are the postorder of.** -/
theorem Automaton.accepts_iff_of_ofPostfix {ts : List Token} {A : Automaton} (h : ofPostfix ts = .ok A) :
    (∃! e : Expr, e.postorder = ts) ∧
      ∀ (e : Expr) (w : Word), e.postorder = ts → Symbol.epsilon ∉ w → (A.accepts w = true ↔ w ∈ e.language) := by
  obtain ⟨e, rfl, rfl⟩ := ofPostfix_eq_ok_iff.mp h
  refine ⟨⟨e, rfl, fun f hf => Expr.postorder_injective hf⟩, fun f w hf hw => ?_⟩
  rw [Expr.postorder_injective hf]
  exact e.accepts_automaton_iff hw

/-- A literal that is followed without reading, repeated, stands in front of one whose symbol begins like an operator. -/
theorem Automaton.accepts_iff_of_ofPostfix_repeated_epsilon :
    let e := Expr.concat (.star (.literal [])) (.literal ['*', 'a'])
    let ts : List Token := [.literal [], .operator .star, .literal ['*', 'a'], .operator .concat]
    ofPostfix ts = .ok e.automaton ∧ (∃! f : Expr, f.postorder = ts) ∧ e.automaton.accepts [['*', 'a']] = true ∧
      e.automaton.accepts [] = false := by
  intro e ts
  have hok : ofPostfix ts = .ok e.automaton := ofPostfix_postorder e
  obtain ⟨hunique, hwords⟩ := accepts_iff_of_ofPostfix hok
  have hword : [['*', 'a']] ∈ e.language :=
    Language.mem_mul.mpr ⟨[], Language.nil_mem_kstar _, [['*', 'a']], rfl, rfl⟩
  have hnil : [] ∉ e.language := by
    intro h
    obtain ⟨u, -, v, hv, hnil⟩ := Language.mem_mul.mp h
    rw [(List.append_eq_nil_iff.mp hnil).2] at hv
    cases hv
  have haccepts : e.automaton.accepts [] ≠ true := fun h => hnil ((hwords e [] rfl (by decide)).mp h)
  exact ⟨hok, hunique, (hwords e _ rfl (by decide)).mpr hword, by simpa using haccepts⟩

end PatternAutomata
