import PatternAutomata.Automaton.Construction
import PatternAutomata.Proofs.Expr

/-!
# What a list of tokens comes to

Whether the construction succeeds, and with which error it fails if not, shows in counts of tokens. Each literal leaves one
operand more on the stack and each binary operator one less, so the stack is as high as the literals in front outnumber the
binary operators (`height`). The first token that the stack cannot serve ends the construction; if there is none, the
height at the end decides.

* `Token.Fed` — every token of a list is served, when some operands wait in front of it;
* `Construction.exists_foldlM_step` — such a list is built, and the stack is then as high as the count says;
* `Automaton.ofPostfix_of_firstStuck`, `Automaton.ofPostfix_of_fed` — what comes of the other lists, and of these;
* `Automaton.ofPostfix_error_cases` — what is known of a list from its error;
* `Automaton.ofPostfix_outcome` — both together, for every list.
-/

namespace PatternAutomata

namespace Token

def isLiteral : Token → Bool
  | literal _ => true
  | _ => false

def isBinary : Token → Bool
  | operator o => o.arity == 2
  | _ => false

/-- The token cannot be taken when `n` operands wait: it is an operator with more operands, or it is foreign. -/
def Stuck (n : ℤ) : Token → Prop
  | literal _ => False
  | operator o => n < o.arity
  | foreign _ => True

instance (n : ℤ) (t : Token) : Decidable (t.Stuck n) := by
  cases t <;> unfold Stuck <;> infer_instance

/-- The number of literals less that of binary operators. -/
def height (ts : List Token) : ℤ := ts.countP isLiteral - ts.countP isBinary

/-- The token at the position cannot be taken when as many operands wait as the tokens in front of it leave. -/
def StuckAt (ts : List Token) (i : Nat) : Prop := ∃ t ∈ ts[i]?, t.Stuck (height (ts.take i))

instance (ts : List Token) (i : Nat) : Decidable (StuckAt ts i) := by unfold StuckAt; infer_instance

/-- The position is the least one at which a token cannot be taken. -/
def FirstStuck (ts : List Token) (i : Nat) : Prop := StuckAt ts i ∧ ∀ j < i, ¬ StuckAt ts j

/-- Every token can be taken, when `n` operands wait in front of the list. -/
def Fed (n : ℤ) : List Token → Prop
  | [] => True
  | t :: ts => ¬ t.Stuck n ∧ Fed (n + t.weight) ts

/-! ### Heights -/

section Height

variable {n : ℤ} {t : Token} {ts us : List Token} {i : Nat}

@[simp] theorem height_nil : height [] = 0 := rfl

theorem weight_eq (t : Token) : t.weight = (if t.isLiteral then 1 else 0) - (if t.isBinary then 1 else 0) := by
  rcases t with s | o | v
  · rfl
  · cases o <;> rfl
  · rfl

theorem height_cons : height (t :: ts) = t.weight + height ts := by
  rw [weight_eq, height, height, List.countP_cons, List.countP_cons]
  push_cast
  omega

theorem height_append : height (ts ++ us) = height ts + height us := by
  rw [height, height, height, List.countP_append, List.countP_append]
  push_cast
  omega

theorem height_eq_sum_weight (ts : List Token) : height ts = (ts.map weight).sum := by
  induction ts with
  | nil => rfl
  | cons t ts ih => rw [height_cons, ih, List.map_cons, List.sum_cons]

/-- A token that can be taken leaves an operand. -/
theorem one_le_add_weight (h : ¬ t.Stuck n) (hn : 0 ≤ n) : 1 ≤ n + t.weight := by
  rcases t with s | o | v
  · simp only [weight]
    omega
  · simp only [Stuck, weight] at *
    omega
  · exact absurd trivial h

theorem fed_append : Fed n (ts ++ us) ↔ Fed n ts ∧ Fed (n + height ts) us := by
  induction ts generalizing n with
  | nil => simp [Fed]
  | cons t ts ih => rw [List.cons_append, Fed, Fed, ih, height_cons, add_assoc, and_assoc]

theorem Fed.nonneg (h : Fed n ts) (hn : 0 ≤ n) : 0 ≤ n + height ts := by
  induction ts generalizing n with
  | nil => simpa using hn
  | cons t ts ih =>
    have hstep := one_le_add_weight h.1 hn
    rw [height_cons, ← add_assoc]
    exact ih h.2 (by omega)

/-- Something is left in the end, so no count of zero is ever reported. -/
theorem Fed.one_le_height (h : Fed 0 ts) (hne : ts ≠ []) : 1 ≤ height ts := by
  obtain ⟨front, last, rfl⟩ := (List.eq_nil_or_concat' ts).resolve_left hne
  rw [fed_append, zero_add] at h
  have hfront := h.1.nonneg (le_refl 0)
  have hlast := one_le_add_weight h.2.1 (by simpa using hfront)
  rw [height_append, height_cons]
  simpa using hlast

theorem fed_take_iff :
    Fed n (ts.take i) ↔ ∀ j < i, ∀ t, ts[j]? = some t → ¬ t.Stuck (n + height (ts.take j)) := by
  induction ts generalizing n i with
  | nil => simp [Fed]
  | cons t ts ih =>
    cases i with
    | zero => simp [Fed]
    | succ i =>
      rw [List.take_succ_cons, Fed, ih, Nat.forall_lt_succ_left]
      simp [height_cons, add_assoc]

end Height

end Token

open Token

/-! ### The construction -/

namespace Construction

variable {source : Text} {k k' : Construction} {t : Token} {o : Operator} {ts : List Token} {i : Nat}

theorem join?_eq_none_iff : k.join? o = none ↔ k.pending.length < o.arity := by
  obtain ⟨arena, pending⟩ := k
  rcases pending with _ | ⟨second, _ | ⟨first, rest⟩⟩ <;> cases o <;> simp [join?, Operator.arity]

theorem length_of_join? (h : k.join? o = some k') : k'.pending.length + o.arity = k.pending.length + 1 := by
  obtain ⟨arena, pending⟩ := k
  rcases pending with _ | ⟨second, _ | ⟨first, rest⟩⟩ <;> cases o <;>
    simp only [join?, Option.some.injEq, reduceCtorEq] at h <;> subst h <;> rfl

theorem exists_step (source : Text) (i : Nat) (h : ¬ t.Stuck k.pending.length) :
    ∃ k', step source k (t, i) = .ok k' ∧ (k'.pending.length : ℤ) = k.pending.length + t.weight := by
  cases t with
  | literal symbol => exact ⟨_, rfl, by simp [literal, weight]⟩
  | operator o =>
    have hjoin : k.join? o ≠ none := fun hnone => h (Int.ofNat_lt.mpr (join?_eq_none_iff.mp hnone))
    obtain ⟨k', hk'⟩ := Option.ne_none_iff_exists'.mp hjoin
    have hlength := length_of_join? hk'
    exact ⟨k', by rw [step, hk'], by rw [weight]; omega⟩
  | foreign value => exact absurd trivial h

theorem step_operator_of_stuck (h : (operator o).Stuck k.pending.length) :
    step source k (.operator o, i) = .error (.operandUnderflow o source i) := by
  rw [step, join?_eq_none_iff.mpr (Int.ofNat_lt.mp h)]

/-- **A list in which every token can be taken is built**, and as many fragments wait in the end as the tokens leave. -/
theorem exists_foldlM_step (source : Text) (i : Nat) (h : Fed k.pending.length ts) :
    ∃ k', (ts.zipIdx i).foldlM (step source) k = .ok k' ∧
      (k'.pending.length : ℤ) = k.pending.length + height ts := by
  induction ts generalizing k i with
  | nil => exact ⟨k, rfl, by simp⟩
  | cons t ts ih =>
    obtain ⟨mid, hstep, hmid⟩ := exists_step source i h.1
    obtain ⟨k', hrun, hlength⟩ := ih (i + 1) (hmid ▸ h.2)
    refine ⟨k', ?_, by rw [hlength, hmid, height_cons, add_assoc]⟩
    rw [List.zipIdx_cons, List.foldlM_cons, hstep]
    exact hrun

/-- The error of a step ends the construction. -/
theorem run_eq_error_of_step {e : CompileError} (ht : ts[i]? = some t)
    (htake : (ts.take i).zipIdx.foldlM (step (textOf ts)) {} = .ok k) (hstep : step (textOf ts) k (t, i) = .error e) :
    run ts = .error e := by
  obtain ⟨hi, rfl⟩ := List.getElem?_eq_some_iff.mp ht
  rw [run]
  generalize textOf ts = source at *
  have hsplit : ts = ts.take i ++ ts[i] :: ts.drop (i + 1) := by simp
  have hlength : (ts.take i).length = i := List.length_take_of_le (Nat.le_of_lt hi)
  rw [hsplit, List.zipIdx_append, List.foldlM_append, htake, hlength, Nat.zero_add]
  simp only [bind, Except.bind, List.zipIdx_cons, List.foldlM_cons, hstep]

end Construction

namespace Automaton

variable {ts : List Token}

theorem ofPostfix_of_run_eq_error {e : CompileError} (h : Construction.run ts = .error e) : ofPostfix ts = .error e := by
  cases ts with
  | nil => cases h
  | cons t ts =>
    rw [ofPostfix, h]
    rfl

theorem ofPostfix_of_firstStuck {i : Nat} (h : FirstStuck ts i) :
    (∃ v, ts[i]? = some (.foreign v) ∧ ofPostfix ts = .error (.unexpectedSymbol v (textOf ts) i)) ∨
      ∃ o, ts[i]? = some (.operator o) ∧ ofPostfix ts = .error (.operandUnderflow o (textOf ts) i) := by
  obtain ⟨⟨t, ht, hstuck⟩, hfirst⟩ := h
  have hfed : Fed 0 (ts.take i) :=
    fed_take_iff.mpr fun j hj t ht hstuck => hfirst j hj ⟨t, ht, by simpa using hstuck⟩
  obtain ⟨k, htake, hlength⟩ := Construction.exists_foldlM_step (k := {}) (textOf ts) 0 hfed
  have hheight : (k.pending.length : ℤ) = height (ts.take i) := by simpa using hlength
  rw [← hheight] at hstuck
  cases t with
  | literal symbol => exact hstuck.elim
  | operator o =>
    exact Or.inr ⟨o, ht, ofPostfix_of_run_eq_error <|
      Construction.run_eq_error_of_step ht htake (Construction.step_operator_of_stuck hstuck)⟩
  | foreign value =>
    exact Or.inl ⟨value, ht, ofPostfix_of_run_eq_error (Construction.run_eq_error_of_step ht htake rfl)⟩

/-- Where every token can be taken, the height decides. -/
theorem ofPostfix_of_fed (h : Fed 0 ts) (hne : ts ≠ []) :
    (height ts = 1 ∧ ∃ A, ofPostfix ts = .ok A) ∨
      2 ≤ height ts ∧ ∃ count : Nat, (count : ℤ) = height ts ∧
        ofPostfix ts = .error (.operandOverflow count (textOf ts) (ts.length - 1)) := by
  have hpos := h.one_le_height hne
  obtain ⟨⟨arena, pending⟩, hrun, hlength⟩ :=
    Construction.exists_foldlM_step (k := {}) (textOf ts) 0 h
  have hheight : (pending.length : ℤ) = height ts := by simpa using hlength
  have hempty : ts.isEmpty = false := by simpa using hne
  rw [ofPostfix, hempty, Construction.run, hrun]
  rcases pending with _ | ⟨last, _ | ⟨first, rest⟩⟩
  · simp only [List.length_nil, Nat.cast_zero] at hheight
    omega
  · exact Or.inl ⟨by simpa using hheight.symm, _, rfl⟩
  · refine Or.inr ⟨?_, _, hheight, rfl⟩
    simp only [List.length_cons] at hheight
    omega

theorem exists_firstStuck_or (ts : List Token) : (∃ i, FirstStuck ts i) ∨ ∀ i, ¬ StuckAt ts i := by
  by_cases h : ∃ i, StuckAt ts i
  · exact Or.inl ⟨Nat.find h, Nat.find_spec h, fun j hj => Nat.find_min h hj⟩
  · exact Or.inr (not_exists.mp h)

theorem fed_iff_forall_not_stuckAt : Fed 0 ts ↔ ∀ i, ¬ StuckAt ts i := by
  rw [← List.take_length (l := ts), fed_take_iff, List.take_length]
  constructor
  · rintro h i ⟨t, ht, hstuck⟩
    exact h i (List.getElem?_eq_some_iff.mp ht).1 t ht (by simpa using hstuck)
  · exact fun h i _ t ht hstuck => h i ⟨t, ht, by simpa using hstuck⟩

/-- The error of a list that is not built: it is empty, its first token that cannot be taken is foreign or an operator, or
all are taken and too many operands are left. -/
theorem ofPostfix_error_cases {e : CompileError} (h : ofPostfix ts = .error e) :
    (ts = [] ∧ e = .emptyPattern) ∨
      (∃ i v, FirstStuck ts i ∧ ts[i]? = some (.foreign v) ∧ e = .unexpectedSymbol v (textOf ts) i) ∨
      (∃ i o, FirstStuck ts i ∧ ts[i]? = some (.operator o) ∧ e = .operandUnderflow o (textOf ts) i) ∨
      ∃ count : Nat, ts ≠ [] ∧ (∀ i, ¬ StuckAt ts i) ∧ 2 ≤ count ∧ (count : ℤ) = height ts ∧
        e = .operandOverflow count (textOf ts) (ts.length - 1) := by
  by_cases hne : ts = []
  · subst hne
    cases h
    exact Or.inl ⟨rfl, rfl⟩
  rcases exists_firstStuck_or ts with ⟨i, hfirst⟩ | hfed
  · rcases ofPostfix_of_firstStuck hfirst with ⟨v, hv, herror⟩ | ⟨o, ho, herror⟩
    · exact Or.inr (Or.inl ⟨i, v, hfirst, hv, Except.error.inj (h.symm.trans herror)⟩)
    · exact Or.inr (Or.inr (Or.inl ⟨i, o, hfirst, ho, Except.error.inj (h.symm.trans herror)⟩))
  · rcases ofPostfix_of_fed (fed_iff_forall_not_stuckAt.mpr hfed) hne with ⟨-, A, hok⟩ | ⟨htwo, count, hcount, herror⟩
    · cases h.symm.trans hok
    · have hle : 2 ≤ count := by omega
      exact Or.inr (Or.inr (Or.inr ⟨count, hne, hfed, hle, hcount, Except.error.inj (h.symm.trans herror)⟩))

theorem exists_ofPostfix_eq_ok_iff : (∃ A, ofPostfix ts = .ok A) ↔ (∀ i, ¬ StuckAt ts i) ∧ height ts = 1 := by
  constructor
  · rintro ⟨A, hok⟩
    have hne : ts ≠ [] := by
      rintro rfl
      cases hok
    rcases exists_firstStuck_or ts with ⟨i, hfirst⟩ | hfed
    · rcases ofPostfix_of_firstStuck hfirst with ⟨_, -, herror⟩ | ⟨_, -, herror⟩ <;> cases hok.symm.trans herror
    · rcases ofPostfix_of_fed (fed_iff_forall_not_stuckAt.mpr hfed) hne with ⟨hheight, -⟩ | ⟨-, _, -, herror⟩
      · exact ⟨hfed, hheight⟩
      · cases hok.symm.trans herror
  · rintro ⟨hfed, hheight⟩
    have hne : ts ≠ [] := by
      rintro rfl
      cases hheight
    rcases ofPostfix_of_fed (fed_iff_forall_not_stuckAt.mpr hfed) hne with ⟨-, hok⟩ | ⟨hheight', -⟩
    · exact hok
    · omega

/-- **The outcome of the construction**, for every list: the empty one has nothing to build, otherwise the first token that
cannot be taken is reported at its position, and if there is none, the height in the end tells whether the operands are
joined to a single one. -/
theorem ofPostfix_outcome (ts : List Token) :
    (ts = [] → ofPostfix ts = .error .emptyPattern) ∧
      (∀ i, FirstStuck ts i →
        (∃ v, ts[i]? = some (.foreign v) ∧ ofPostfix ts = .error (.unexpectedSymbol v (textOf ts) i)) ∨
          ∃ o, ts[i]? = some (.operator o) ∧ ofPostfix ts = .error (.operandUnderflow o (textOf ts) i)) ∧
      ((∃ i, FirstStuck ts i) ∨ ∀ i, ¬ StuckAt ts i) ∧
      (ts ≠ [] → (∀ i, ¬ StuckAt ts i) →
        (height ts = 1 ∧ ∃ A, ofPostfix ts = .ok A) ∨
          2 ≤ height ts ∧ ∃ count : Nat, (count : ℤ) = height ts ∧
            ofPostfix ts = .error (.operandOverflow count (textOf ts) (ts.length - 1))) := by
  refine ⟨?_, fun i hfirst => ofPostfix_of_firstStuck hfirst, exists_firstStuck_or ts, fun hne hfed => ?_⟩
  · rintro rfl
    rfl
  · exact ofPostfix_of_fed (fed_iff_forall_not_stuckAt.mpr hfed) hne

/-- The operator has one operand only, which is found out before the foreign value behind it is met. -/
theorem ofPostfix_outcome_competing :
    let ts : List Token := [.literal ['a'], .operator .concat, .foreign (.int 42)]
    FirstStuck ts 1 ∧ ofPostfix ts = .error (.operandUnderflow .concat (textOf ts) 1) := by
  intro ts
  have hfirst : FirstStuck ts 1 := ⟨by decide, by decide⟩
  obtain ⟨-, hstuck, -⟩ := ofPostfix_outcome ts
  rcases hstuck 1 hfirst with ⟨v, hv, -⟩ | ⟨o, ho, herror⟩
  · cases hv
  · cases ho
    exact ⟨hfirst, herror⟩

end Automaton
end PatternAutomata
