import PatternAutomata.Proofs.Shape
import PatternAutomata.Proofs.Steps

/-!
# Viable words

A word is viable if an accepted word begins with it. While an automaton of a list of tokens reads, some state is active
exactly as long as what it has read is viable (`Automaton.active_ne_nil_iff_viable_of_ofPostfix`).

Every state of such an automaton lies on a way to its final state, so an active state tells how the word can be continued.
The converse holds of any automaton: a path that reads the longer word passes a state that is active after the shorter one.
-/

namespace PatternAutomata

namespace Automaton

variable {A : Automaton} {w v : Word}

/-- The word is the beginning of an accepted one. -/
def Viable (A : Automaton) (w : Word) : Prop := ∃ v, Symbol.epsilon ∉ v ∧ A.accepts (w ++ v) = true

theorem active_ne_nil_iff : (A.simulate w).active ≠ [] ↔ ∃ q, q ∈ w.foldl A.advance A.start := by
  rw [ne_eq, List.eq_nil_iff_forall_not_mem, not_forall_not]
  rfl

/-- A state that is active after a word shows how to go on, if all states lie on ways to the final one. -/
theorem Normalized.viable_of_mem_active (h : A.Normalized) {q : Nat} (hq : q ∈ w.foldl A.advance A.start) :
    A.Viable w := by
  have hpath : A.arena.graph.Path A.initial w q := (mem_foldl_advance_iff h.closed h.initial_lt w).mp hq
  have hlt : q < A.size := Arena.lt_size_of_path h.closed hpath h.initial_lt
  obtain ⟨v, hv, hrest⟩ := h.coreachable q hlt
  refine ⟨v, hv, (accepts_iff_path h.closed h.initial_lt (w ++ v)).mpr ⟨A.final, hpath.trans hrest, ?_⟩⟩
  exact (h.isFinal_iff A.final).mpr rfl

/-- On the way to an accepted word there is always an active state. -/
theorem exists_mem_active_of_accepts (hclosed : A.arena.Closed) (hinitial : A.initial < A.size)
    (h : A.accepts (w ++ v) = true) : ∃ q, q ∈ w.foldl A.advance A.start := by
  obtain ⟨r, hpath, -⟩ := (accepts_iff_path hclosed hinitial (w ++ v)).mp h
  obtain ⟨q, hread, -⟩ := Graph.path_append_iff.mp hpath
  exact ⟨q, (mem_foldl_advance_iff hclosed hinitial w).mpr hread⟩

theorem Normalized.active_ne_nil_iff_viable (h : A.Normalized) : (A.simulate w).active ≠ [] ↔ A.Viable w := by
  rw [active_ne_nil_iff]
  constructor
  · rintro ⟨q, hq⟩
    exact h.viable_of_mem_active hq
  · rintro ⟨v, -, hv⟩
    exact exists_mem_active_of_accepts h.closed h.initial_lt hv

/-- Once no state is active, all further reports are empty. -/
theorem drop_steps_of_active_eq_nil (h : (A.simulate w).active = []) (v : Word) :
    (A.steps (w ++ v)).drop w.length = List.replicate (v.length + 1) ⟨[], false⟩ := by
  have hactive : w.foldl A.advance A.start = [] := h
  rw [steps, drop_stepsFrom_append, hactive, stepsFrom_nil]

theorem accepts_append_of_active_eq_nil (h : (A.simulate w).active = []) (v : Word) : A.accepts (w ++ v) = false := by
  have hactive : w.foldl A.advance A.start = [] := h
  simp [accepts, simulate, report, hactive, foldl_advance_nil]

/-- **Viable prefixes.** While the automaton of a list of tokens reads, a state is active as long as what was read can be
continued to an accepted word. After that nothing is accepted, and no state becomes active again, even if the empty symbol
is read. -/
theorem active_ne_nil_iff_viable_of_ofPostfix {ts : List Token} {A : Automaton} (h : ofPostfix ts = .ok A) :
    (∀ w, (A.simulate w).active ≠ [] ↔ A.Viable w) ∧
      ∀ w, (A.simulate w).active = [] → ∀ v,
        A.accepts (w ++ v) = false ∧
          (A.steps (w ++ v)).drop w.length = List.replicate (v.length + 1) ⟨[], false⟩ := by
  obtain ⟨e, -, rfl⟩ := ofPostfix_eq_ok_iff.mp h
  refine ⟨fun w => e.normalized_automaton.active_ne_nil_iff_viable, fun w hw v => ⟨?_, ?_⟩⟩
  · exact accepts_append_of_active_eq_nil hw v
  · exact drop_steps_of_active_eq_nil hw v

/-- After `a` the automaton of `a*b` can go on, after `ba` it cannot. -/
theorem active_ne_nil_iff_viable_of_ofPostfix_repeated :
    let ts : List Token := [.literal ['a'], .operator .star, .literal ['b'], .operator .concat]
    ∃ A, ofPostfix ts = .ok A ∧ (A.simulate [['a']]).active ≠ [] ∧ (A.simulate [['b'], ['a']]).active = [] ∧
      (A.steps [['b'], ['a'], [], ['b']]).drop 2 = List.replicate 3 ⟨[], false⟩ := by
  intro ts
  let e := Expr.concat (.star (.literal ['a'])) (.literal ['b'])
  have hok : ofPostfix ts = .ok e.automaton := ofPostfix_postorder e
  obtain ⟨hviable, hdead⟩ := active_ne_nil_iff_viable_of_ofPostfix hok
  have hgoes : e.automaton.Viable [['a']] := by
    have hround : [['a']] ∈ (Expr.star (.literal ['a'])).language := by
      refine Language.mem_kstar.mpr ⟨[[['a']]], rfl, fun y hy => ?_⟩
      rw [List.mem_singleton.mp hy]
      rfl
    have hword : [['a'], ['b']] ∈ e.language := Language.mem_mul.mpr ⟨[['a']], hround, [['b']], rfl, rfl⟩
    exact ⟨[['b']], by decide, (e.accepts_automaton_iff (by decide)).mpr hword⟩
  have hnone : (e.automaton.simulate [['b'], ['a']]).active = [] := by
    by_contra hactive
    obtain ⟨v, hv, haccepts⟩ := (hviable _).mp hactive
    have hread : Symbol.epsilon ∉ [['b'], ['a']] ++ v := by simpa [Symbol.epsilon] using hv
    have hword := (e.accepts_automaton_iff hread).mp haccepts
    obtain ⟨u, hu, x, hx, huv⟩ := Language.mem_mul.mp hword
    obtain ⟨rounds, rfl, hrounds⟩ := Language.mem_kstar.mp hu
    cases Set.mem_singleton_iff.mp hx
    -- a round would begin with `a`, and without a round only `b` is read
    cases rounds with
    | nil => simp at huv
    | cons round rounds =>
      rw [Set.mem_singleton_iff.mp (hrounds round List.mem_cons_self)] at huv
      simp at huv
  exact ⟨e.automaton, hok, (hviable _).mpr hgoes, hnone, (hdead _ hnone [[], ['b']]).2⟩

end Automaton
end PatternAutomata
