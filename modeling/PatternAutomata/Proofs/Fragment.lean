import PatternAutomata.Proofs.Expr
import PatternAutomata.Proofs.Path

/-!
# The fragment of an expression

The states of an expression are numbered from a given one on. `Expr.graph` has their edges, `Expr.start` and `Expr.stop`
are the states by which the fragment is entered and left.

* `Expr.graph_bounds` — the edges stay among the states of the expression;
* `Expr.not_graph_stop` — no edge leaves the exit;
* `Expr.path_iff_mem_language` — the paths from the entry to the exit read the words of the language.

The last one is an induction on the expression. From a word to a path, the paths of the operands are joined by the edges of
the operator. From a path to a word, the path is cut where it leaves the fragment of an operand (`Graph.Path.leave`), which
is at the exit of the operand; for a star the rest may enter the operand again.
-/

namespace PatternAutomata

open scoped Computability

namespace Expr

/-- The number of states. -/
def size : Expr → Nat
  | literal _ => 2
  | star inner => inner.size + 2
  | concat first second => first.size + second.size
  | alternate first second => first.size + second.size + 2

/-- The entry, where the states are numbered from `n` on. -/
def start : Expr → Nat → Nat
  | literal _, n => n
  | star inner, n => n + inner.size
  | concat first _, n => first.start n
  | alternate first second, n => n + first.size + second.size

/-- The exit, where the states are numbered from `n` on. -/
def stop : Expr → Nat → Nat
  | literal _, n => n + 1
  | star inner, n => n + inner.size + 1
  | concat first second, n => second.stop (n + first.size)
  | alternate first second, n => n + first.size + second.size + 1

/-- The edges, where the states are numbered from `n` on. -/
def graph : Expr → Nat → Graph
  | literal symbol, n => fun p c q => p = n ∧ c = symbol ∧ q = n + 1
  | star inner, n => fun p c q =>
    inner.graph n p c q ∨
      (p = n + inner.size ∨ p = inner.stop n) ∧ c = Symbol.epsilon ∧ (q = inner.start n ∨ q = n + inner.size + 1)
  | concat first second, n => fun p c q =>
    first.graph n p c q ∨ second.graph (n + first.size) p c q ∨
      p = first.stop n ∧ c = Symbol.epsilon ∧ q = second.start (n + first.size)
  | alternate first second, n => fun p c q =>
    first.graph n p c q ∨ second.graph (n + first.size) p c q ∨
      (p = n + first.size + second.size ∧ c = Symbol.epsilon ∧
          (q = first.start n ∨ q = second.start (n + first.size))) ∨
        (p = first.stop n ∨ p = second.stop (n + first.size)) ∧ c = Symbol.epsilon ∧
          q = n + first.size + second.size + 1

/-! ### Where the states are -/

/-- The state is one of those of the expression. -/
def Within (e : Expr) (n q : Nat) : Prop := n ≤ q ∧ q < n + e.size

theorem within_start (e : Expr) (n : Nat) : e.Within n (e.start n) := by
  induction e generalizing n with
  | literal symbol => simp [Within, start, size]
  | star inner ih => simp only [Within, start, size]; omega
  | concat first second ihf ihs =>
    obtain ⟨hle, hlt⟩ := ihf n
    simp only [Within, start, size]
    omega
  | alternate first second ihf ihs => simp only [Within, start, size]; omega

theorem within_stop (e : Expr) (n : Nat) : e.Within n (e.stop n) := by
  induction e generalizing n with
  | literal symbol => simp [Within, stop, size]
  | star inner ih => simp only [Within, stop, size]; omega
  | concat first second ihf ihs =>
    obtain ⟨hle, hlt⟩ := ihs (n + first.size)
    simp only [Within, stop, size]
    omega
  | alternate first second ihf ihs => simp only [Within, stop, size]; omega

theorem graph_bounds {e : Expr} {n p q : Nat} {c : Symbol} (h : e.graph n p c q) : e.Within n p ∧ e.Within n q := by
  induction e generalizing n with
  | literal symbol =>
    obtain ⟨rfl, -, rfl⟩ := h
    simp [Within, size]
  | star inner ih =>
    have hstart := inner.within_start n
    have hstop := inner.within_stop n
    simp only [Within, size] at *
    rcases h with h | ⟨rfl | rfl, -, rfl | rfl⟩
    · have := ih h
      omega
    all_goals omega
  | concat first second ihf ihs =>
    have hstop := first.within_stop n
    have hstart := second.within_start (n + first.size)
    simp only [Within, size] at *
    rcases h with h | h | ⟨rfl, -, rfl⟩
    · have := ihf h
      omega
    · have := ihs h
      omega
    · omega
  | alternate first second ihf ihs =>
    have hstop := first.within_stop n
    have hstop' := second.within_stop (n + first.size)
    have hstart := first.within_start n
    have hstart' := second.within_start (n + first.size)
    simp only [Within, size] at *
    rcases h with h | h | ⟨rfl, -, rfl | rfl⟩ | ⟨rfl | rfl, -, rfl⟩
    · have := ihf h
      omega
    · have := ihs h
      omega
    all_goals omega

/-- No edge leaves the exit. -/
theorem not_graph_stop {e : Expr} {n q : Nat} {c : Symbol} : ¬ e.graph n (e.stop n) c q := by
  induction e generalizing n with
  | literal symbol => rintro ⟨h, -⟩; simp [stop] at h
  | star inner ih =>
    have hstop := inner.within_stop n
    rintro (h | ⟨h | h, -⟩)
    · have := (graph_bounds h).1
      simp only [stop, Within] at this
      omega
    all_goals simp only [stop, Within] at *; omega
  | concat first second ihf ihs =>
    have hstop := first.within_stop n
    have hstop' := second.within_stop (n + first.size)
    rintro (h | h | ⟨h, -⟩)
    · have := (graph_bounds h).1
      simp only [stop, Within] at *
      omega
    · exact ihs h
    · simp only [stop, Within] at *
      omega
  | alternate first second ihf ihs =>
    have hstop := first.within_stop n
    have hstop' := second.within_stop (n + first.size)
    rintro (h | h | ⟨h, -⟩ | ⟨h | h, -⟩)
    · have := (graph_bounds h).1
      simp only [stop, Within] at *
      omega
    · have := (graph_bounds h).1
      simp only [stop, Within] at *
      omega
    all_goals simp only [stop, Within] at *; omega

/-! ### From words to paths -/

theorem path_of_mem_language {e : Expr} {n : Nat} {w : Word} (h : w ∈ e.language) :
    (e.graph n).Path (e.start n) w (e.stop n) := by
  induction e generalizing n w with
  | literal symbol =>
    unfold language at h
    split at h
    next hs =>
      cases (Language.mem_one w).mp h
      exact .single_epsilon ⟨rfl, hs.symm, rfl⟩
    next =>
      cases Set.mem_singleton_iff.mp h
      exact .read ⟨rfl, rfl, rfl⟩ (.refl _)
  | star inner ih =>
    obtain ⟨words, rfl, hwords⟩ := Language.mem_kstar.mp h
    -- the exit of the operand has the same edges as the entry, so the rest of the rounds starts there again
    have hrounds : ∀ p, p = n + inner.size ∨ p = inner.stop n →
        ((star inner).graph n).Path p words.flatten (n + inner.size + 1) := by
      clear h
      induction words with
      | nil =>
        intro p hp
        exact .single_epsilon (Or.inr ⟨hp, rfl, Or.inr rfl⟩)
      | cons word words ihw =>
        intro p hp
        rw [List.forall_mem_cons] at hwords
        have hround : ((star inner).graph n).Path (inner.start n) word (inner.stop n) := (ih hwords.1).mono Or.inl
        exact .epsilon (Or.inr ⟨hp, rfl, Or.inl rfl⟩) (hround.trans (ihw hwords.2 _ (Or.inr rfl)))
    exact hrounds _ (Or.inl rfl)
  | concat first second ihf ihs =>
    obtain ⟨u, hu, v, hv, rfl⟩ := Language.mem_mul.mp h
    have hfirst : ((concat first second).graph n).Path (first.start n) u (first.stop n) := (ihf hu).mono Or.inl
    refine hfirst.trans (.epsilon (Or.inr (Or.inr ⟨rfl, rfl, rfl⟩)) ((ihs hv).mono fun hedge => ?_))
    exact Or.inr (Or.inl hedge)
  | alternate first second ihf ihs =>
    have hexit : ∀ p, p = first.stop n ∨ p = second.stop (n + first.size) →
        ((alternate first second).graph n).Path p [] (n + first.size + second.size + 1) := fun p hp =>
      .single_epsilon (Or.inr (Or.inr (Or.inr ⟨hp, rfl, rfl⟩)))
    rw [← List.append_nil w]
    rcases (Language.mem_add _ _ _).mp h with hw | hw
    · refine .epsilon (Or.inr (Or.inr (Or.inl ⟨rfl, rfl, Or.inl rfl⟩))) (Graph.Path.trans ?_ (hexit _ (Or.inl rfl)))
      exact (ihf hw).mono Or.inl
    · refine .epsilon (Or.inr (Or.inr (Or.inl ⟨rfl, rfl, Or.inr rfl⟩))) (Graph.Path.trans ?_ (hexit _ (Or.inr rfl)))
      exact (ihs hw).mono fun hedge => Or.inr (Or.inl hedge)

/-! ### From paths to words -/

section Regions

variable {inner first second : Expr} {n p q : Nat} {c : Symbol}

theorem star_step (hp : inner.Within n p) (h : (star inner).graph n p c q) :
    (inner.graph n p c q ∧ inner.Within n q) ∨
      (p = inner.stop n ∧ c = Symbol.epsilon ∧ (q = inner.start n ∨ q = n + inner.size + 1)) := by
  rcases h with h | ⟨rfl | rfl, hc, hq⟩
  · exact Or.inl ⟨h, (graph_bounds h).2⟩
  · simp only [Within] at hp
    omega
  · exact Or.inr ⟨rfl, hc, hq⟩

theorem concat_step_first (hp : first.Within n p) (h : (concat first second).graph n p c q) :
    (first.graph n p c q ∧ first.Within n q) ∨
      (p = first.stop n ∧ c = Symbol.epsilon ∧ q = second.start (n + first.size)) := by
  rcases h with h | h | h
  · exact Or.inl ⟨h, (graph_bounds h).2⟩
  · have := (graph_bounds h).1
    simp only [Within] at *
    omega
  · exact Or.inr h

theorem concat_step_second (hp : second.Within (n + first.size) p) (h : (concat first second).graph n p c q) :
    second.graph (n + first.size) p c q ∧ second.Within (n + first.size) q := by
  rcases h with h | h | ⟨rfl, -⟩
  · have := (graph_bounds h).1
    simp only [Within] at *
    omega
  · exact ⟨h, (graph_bounds h).2⟩
  · have := first.within_stop n
    simp only [Within] at *
    omega

theorem alternate_step_first (hp : first.Within n p) (h : (alternate first second).graph n p c q) :
    (first.graph n p c q ∧ first.Within n q) ∨
      (p = first.stop n ∧ c = Symbol.epsilon ∧ q = n + first.size + second.size + 1) := by
  have hstop := second.within_stop (n + first.size)
  rcases h with h | h | ⟨rfl, -⟩ | ⟨rfl | rfl, h⟩
  · exact Or.inl ⟨h, (graph_bounds h).2⟩
  · have := (graph_bounds h).1
    simp only [Within] at *
    omega
  · simp only [Within] at *
    omega
  · exact Or.inr ⟨rfl, h⟩
  · simp only [Within] at *
    omega

theorem alternate_step_second (hp : second.Within (n + first.size) p) (h : (alternate first second).graph n p c q) :
    (second.graph (n + first.size) p c q ∧ second.Within (n + first.size) q) ∨
      (p = second.stop (n + first.size) ∧ c = Symbol.epsilon ∧ q = n + first.size + second.size + 1) := by
  have hstop := first.within_stop n
  rcases h with h | h | ⟨rfl, -⟩ | ⟨rfl | rfl, h⟩
  · have := (graph_bounds h).1
    simp only [Within] at *
    omega
  · exact Or.inl ⟨h, (graph_bounds h).2⟩
  · simp only [Within] at *
    omega
  · simp only [Within] at *
    omega
  · exact Or.inr ⟨rfl, h⟩

end Regions

theorem mem_language_of_path_star {inner : Expr} {n : Nat} {w : Word}
    (ih : ∀ {u}, Symbol.epsilon ∉ u → (inner.graph n).Path (inner.start n) u (inner.stop n) → u ∈ inner.language)
    (hw : Symbol.epsilon ∉ w) (h : ((star inner).graph n).Path (n + inner.size) w (n + inner.size + 1)) :
    w ∈ inner.language∗ := by
  have houtside : ¬ inner.Within n (n + inner.size + 1) := by simp only [Within]; omega
  -- a word that is read from one of the two targets that entry and exit of the operand share
  have hexit : ∀ {x w}, (x = inner.start n ∨ x = n + inner.size + 1) → Symbol.epsilon ∉ w →
      ((star inner).graph n).Path x w (n + inner.size + 1) →
      (inner.Within n x → ∃ u v, w = u ++ v ∧ (inner.graph n).Path x u (inner.stop n) ∧ v ∈ inner.language∗) →
      w ∈ inner.language∗ := by
    rintro x w (rfl | rfl) hw hpath hcut
    · obtain ⟨u, v, rfl, hu, hv⟩ := hcut (inner.within_start n)
      rw [← Language.one_add_self_mul_kstar_eq_kstar]
      exact Or.inr (Language.append_mem_mul (ih (fun hmem => hw (List.mem_append_left v hmem)) hu) hv)
    · obtain ⟨rfl, -⟩ := hpath.of_sink fun c q => not_graph_stop (e := star inner)
      exact Language.nil_mem_kstar _
  obtain ⟨x, hx, hrest⟩ := h.exists_of_epsilon_only (fun {c q} hedge => by
    rcases hedge with hedge | ⟨-, hc, hq⟩
    · have := (graph_bounds hedge).1
      simp only [Within] at this
      omega
    · exact ⟨hc, hq⟩) (by omega) hw
  exact hexit hx hw hrest fun hin => hrest.leave houtside star_step hexit hin hw

theorem mem_language_of_path_concat {first second : Expr} {n : Nat} {w : Word}
    (ihf : ∀ {u}, Symbol.epsilon ∉ u → (first.graph n).Path (first.start n) u (first.stop n) → u ∈ first.language)
    (ihs : ∀ {v}, Symbol.epsilon ∉ v →
      (second.graph (n + first.size)).Path (second.start (n + first.size)) v (second.stop (n + first.size)) →
      v ∈ second.language)
    (hw : Symbol.epsilon ∉ w)
    (h : ((concat first second).graph n).Path (first.start n) w (second.stop (n + first.size))) :
    w ∈ first.language * second.language := by
  have houtside : ¬ first.Within n (second.stop (n + first.size)) := by
    have := second.within_stop (n + first.size)
    simp only [Within] at *
    omega
  have hexit : ∀ {x v}, x = second.start (n + first.size) → Symbol.epsilon ∉ v →
      ((concat first second).graph n).Path x v (second.stop (n + first.size)) → v ∈ second.language := by
    rintro x v rfl hv hpath
    exact ihs hv (hpath.confined concat_step_second (second.within_start _))
  obtain ⟨u, v, rfl, hu, hv⟩ := h.leave houtside concat_step_first
    (fun hx hw hpath _ => hexit hx hw hpath) (first.within_start n) hw
  exact Language.append_mem_mul (ihf (fun hmem => hw (List.mem_append_left v hmem)) hu) hv

theorem mem_language_of_path_alternate {first second : Expr} {n : Nat} {w : Word}
    (ihf : ∀ {u}, Symbol.epsilon ∉ u → (first.graph n).Path (first.start n) u (first.stop n) → u ∈ first.language)
    (ihs : ∀ {v}, Symbol.epsilon ∉ v →
      (second.graph (n + first.size)).Path (second.start (n + first.size)) v (second.stop (n + first.size)) →
      v ∈ second.language)
    (hw : Symbol.epsilon ∉ w)
    (h : ((alternate first second).graph n).Path (n + first.size + second.size) w
      (n + first.size + second.size + 1)) :
    w ∈ first.language + second.language := by
  have hexit : ∀ {x v}, x = n + first.size + second.size + 1 → Symbol.epsilon ∉ v →
      ((alternate first second).graph n).Path x v (n + first.size + second.size + 1) → v = [] := by
    rintro x v rfl - hpath
    exact (hpath.of_sink fun c q => not_graph_stop (e := alternate first second)).1
  have hstop := first.within_stop n
  have hstop' := second.within_stop (n + first.size)
  obtain ⟨x, hx, hrest⟩ := h.exists_of_epsilon_only (fun {c q} hedge => by
    rcases hedge with hedge | hedge | ⟨-, hc, hq⟩ | ⟨hp, -⟩
    · have := (graph_bounds hedge).1
      simp only [Within] at this
      omega
    · have := (graph_bounds hedge).1
      simp only [Within] at this
      omega
    · exact ⟨hc, hq⟩
    · simp only [Within] at *
      omega) (by omega) hw
  rcases hx with rfl | rfl
  · obtain ⟨u, v, rfl, hu, rfl⟩ := hrest.leave (by simp only [Within]; omega) alternate_step_first
      (fun hx hw hpath _ => hexit hx hw hpath) (first.within_start n) hw
    rw [List.append_nil] at hw ⊢
    exact Or.inl (ihf hw hu)
  · obtain ⟨u, v, rfl, hu, rfl⟩ := hrest.leave (by simp only [Within]; omega) alternate_step_second
      (fun hx hw hpath _ => hexit hx hw hpath) (second.within_start _) hw
    rw [List.append_nil] at hw ⊢
    exact Or.inr (ihs hw hu)

theorem mem_language_of_path {e : Expr} {n : Nat} {w : Word} (hw : Symbol.epsilon ∉ w)
    (h : (e.graph n).Path (e.start n) w (e.stop n)) : w ∈ e.language := by
  induction e generalizing n w with
  | literal symbol =>
    unfold language
    cases h with
    | epsilon hedge hrest =>
      obtain ⟨-, hc, rfl⟩ := hedge
      obtain ⟨rfl, -⟩ := hrest.of_sink fun c q => not_graph_stop (e := literal symbol)
      rw [if_pos hc.symm]
      exact Language.nil_mem_one
    | @read _ _ _ c _ hedge hrest =>
      obtain ⟨-, rfl, rfl⟩ := hedge
      obtain ⟨rfl, -⟩ := hrest.of_sink fun c q => not_graph_stop (e := literal _)
      have hne : c ≠ Symbol.epsilon := by
        rintro rfl
        exact hw List.mem_cons_self
      rw [if_neg hne]
      rfl
  | star inner ih => exact mem_language_of_path_star ih hw h
  | concat first second ihf ihs => exact mem_language_of_path_concat ihf ihs hw h
  | alternate first second ihf ihs => exact mem_language_of_path_alternate ihf ihs hw h

/-- **The paths through a fragment read the words of its expression.** -/
theorem path_iff_mem_language {e : Expr} {n : Nat} {w : Word} (hw : Symbol.epsilon ∉ w) :
    (e.graph n).Path (e.start n) w (e.stop n) ↔ w ∈ e.language :=
  ⟨mem_language_of_path hw, path_of_mem_language⟩

end Expr
end PatternAutomata
