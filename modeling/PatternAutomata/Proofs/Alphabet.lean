import PatternAutomata.Proofs.Compilation
import PatternAutomata.Proofs.Parentheses

/-!
# Alphabets of compiled patterns

An alphabet is checked on the characters of a pattern, before it is known which of them are operands. What comes out as an
operand is a character that passed the check for being in the alphabet, with one exception: the parenthesis of a group that
is never closed passes as a parenthesis, and comes out as an operand.

* `literal_mem_parse_iff` — the operands of a pattern;
* `Alphabet.check_eq_error_iff` — the check refuses the first character that a pattern may not hold;
* `Expr.exists_graph_iff` — the symbols on the edges of an automaton are the literals of its expression;
* `Automaton.ofPattern_alphabet` — the operands of a pattern that compiles are in its alphabet, but for this parenthesis.
-/

namespace PatternAutomata

/-! ### Symbols on edges -/

/-- Every symbol of a word that is read stands on an edge. -/
theorem Graph.Path.exists_edge {G : Graph} {p q : Nat} {w : Word} {c : Symbol} (h : Path G p w q) (hc : c ∈ w) :
    ∃ p' q', G p' c q' := by
  induction h with
  | refl _ => cases hc
  | epsilon _ _ ih => exact ih hc
  | @read p q _ d _ hedge _ ih =>
    rcases List.mem_cons.mp hc with rfl | hc
    · exact ⟨p, q, hedge⟩
    · exact ih hc

theorem Expr.exists_graph_iff {e : Expr} {n : Nat} {c : Symbol} (hc : c ≠ Symbol.epsilon) :
    (∃ p q, e.graph n p c q) ↔ .literal c ∈ e.postorder := by
  induction e generalizing n with
  | literal symbol => simp [graph, postorder]
  | star inner ih => simp [graph, postorder, hc, ih]
  | concat first second ihf ihs => simp [graph, postorder, hc, exists_or, ihf, ihs]
  | alternate first second ihf ihs => simp [graph, postorder, hc, exists_or, ihf, ihs]

/-! ### Operands of a pattern -/

namespace Pattern

variable {p : Text} {c : Char} {s : Symbol}

theorem mem_complete_iff (hc : c ≠ '.') : c ∈ complete p ↔ c ∈ p := by
  induction p with
  | nil => rfl
  | cons a p ih =>
    cases p with
    | nil => rfl
    | cons b p =>
      rw [complete_cons_cons]
      split
      · rw [List.mem_cons, List.mem_cons, ih, List.mem_cons (a := c) (b := a)]
        simp [hc]
      · rw [List.mem_cons, ih, List.mem_cons (a := c) (b := a)]

theorem isSome_ofChar?_iff : (Operator.ofChar? c).isSome = true ↔ c = '*' ∨ c = '.' ∨ c = '|' := by
  rw [Option.isSome_iff_exists]
  simp only [Operator.ofChar?_eq_some_iff]
  constructor
  · rintro ⟨o, rfl⟩
    cases o <;> simp [Operator.symbol]
  · rintro (rfl | rfl | rfl)
    · exact ⟨.star, rfl⟩
    · exact ⟨.concat, rfl⟩
    · exact ⟨.alternate, rfl⟩

/-- **The operands of a pattern** are its characters that do not mean anything else, and the parentheses that are never
closed. -/
theorem literal_mem_parse_iff :
    .literal s ∈ parse p ↔ (∃ c ∈ p, c ∉ reserved ∧ s = [c]) ∨ s = ['('] ∧ unclosed 0 p ≠ 0 := by
  have hperm := (toPostfixFrom_perm [] (complete p)).mem_iff (a := .literal s)
  rw [parse, toPostfix, hperm, depth, List.count_nil, unclosed_complete, held, List.nil_append, List.mem_append,
    List.mem_filterMap, List.mem_replicate]
  refine or_congr ?_ (by simp [Pending.token, and_comm])
  simp only [token?_eq_some_literal_iff]
  refine exists_congr fun c => and_congr_left fun hc => mem_complete_iff ?_
  rintro rfl
  exact hc.1 (by decide)

end Pattern

open Pattern

/-! ### The check -/

namespace Alphabet

variable {alphabet : Alphabet} {p : Text} {c : Char}

theorem allows_iff : alphabet.allows c = true ↔ c ∈ reserved ∨ [c] ∈ alphabet := by
  simp only [allows, Bool.or_eq_true, isSome_ofChar?_iff, beq_iff_eq, List.contains_iff_mem, mem_reserved_iff]
  tauto

theorem check_eq_ok_iff : alphabet.check p = .ok () ↔ ∀ c ∈ p, alphabet.allows c = true := by
  rw [check]
  split
  next hfind =>
    refine iff_of_true rfl fun c hc => ?_
    obtain ⟨i, hi⟩ := List.mem_iff_getElem?.mp hc
    simpa using List.find?_eq_none.mp hfind (c, i) (List.mem_zipIdx_iff_getElem?.mpr hi)
  next c i hfind =>
    have hmem : c ∈ p := List.mem_of_getElem? (List.mem_zipIdx_iff_getElem?.mp (List.mem_of_find?_eq_some hfind))
    have hnot := List.find?_some hfind
    refine iff_of_false (fun h => nomatch h) fun h => ?_
    simp [h c hmem] at hnot

/-- A pattern may hold the character: it has a meaning of its own, or it is in the alphabet. -/
def Admits (alphabet : Alphabet) (c : Char) : Prop := c ∈ reserved ∨ [c] ∈ alphabet

instance (alphabet : Alphabet) (c : Char) : Decidable (alphabet.Admits c) :=
  inferInstanceAs (Decidable (c ∈ reserved ∨ [c] ∈ alphabet))

/-- The position is the least one of a character that a pattern may not hold. -/
def FirstRefused (alphabet : Alphabet) (p : Text) (i : Nat) (c : Char) : Prop :=
  p[i]? = some c ∧ ¬ alphabet.Admits c ∧ ∀ j < i, ∀ d, p[j]? = some d → alphabet.Admits d

theorem find?_eq_some_iff_firstRefused {i : Nat} :
    p.zipIdx.find? (fun (c, _) => !alphabet.allows c) = some (c, i) ↔ alphabet.FirstRefused p i c := by
  have hallows : ∀ d, alphabet.Admits d ↔ alphabet.allows d = true := fun _ => allows_iff.symm
  rw [List.find?_eq_some_iff_getElem, FirstRefused]
  simp only [hallows, List.getElem_zipIdx, List.length_zipIdx, Prod.mk.injEq, Nat.zero_add, Bool.not_eq_true',
    Bool.not_eq_true, Bool.not_not, List.getElem?_eq_some_iff]
  constructor
  · rintro ⟨hc, j, hj, ⟨hget, rfl⟩, hbefore⟩
    exact ⟨⟨hj, hget⟩, hc, fun k hk d ⟨_, hd⟩ => hd ▸ hbefore k hk⟩
  · rintro ⟨⟨hi, hget⟩, hc, hbefore⟩
    exact ⟨hc, i, hi, ⟨hget, rfl⟩, fun j hj => hbefore j hj _ ⟨Nat.lt_trans hj hi, rfl⟩⟩

/-- The check fails at the first character that a pattern may not hold, and for no other reason. -/
theorem check_eq_error_iff {e : CompileError} :
    alphabet.check p = .error e ↔ ∃ i c, alphabet.FirstRefused p i c ∧ e = .unexpectedSymbol (.text [c]) p i := by
  rw [check]
  split
  next hnone =>
    refine iff_of_false (fun h => nomatch h) ?_
    rintro ⟨i, c, hfirst, -⟩
    cases hnone.symm.trans (find?_eq_some_iff_firstRefused.mpr hfirst)
  next c i hsome =>
    constructor
    · intro h
      cases h
      exact ⟨i, c, find?_eq_some_iff_firstRefused.mp hsome, rfl⟩
    · rintro ⟨j, d, hfirst, rfl⟩
      cases hsome.symm.trans (find?_eq_some_iff_firstRefused.mpr hfirst)
      rfl

theorem exists_firstRefused_or (alphabet : Alphabet) (p : Text) :
    (∃ i c, alphabet.FirstRefused p i c) ∨ ∀ c ∈ p, alphabet.Admits c := by
  cases hcheck : alphabet.check p with
  | error e =>
    obtain ⟨i, c, hfirst, -⟩ := check_eq_error_iff.mp hcheck
    exact Or.inl ⟨i, c, hfirst⟩
  | ok u => exact Or.inr fun c hc => allows_iff.mp (check_eq_ok_iff.mp hcheck c hc)

end Alphabet

namespace Automaton

variable {p : Text} {alphabet : Alphabet} {A : Automaton}

theorem ofPattern_some_eq_ok_iff :
    ofPattern p (some alphabet) = .ok A ↔ (∀ c ∈ p, alphabet.allows c = true) ∧ ofPattern p = .ok A := by
  rw [← Alphabet.check_eq_ok_iff, ofPattern_none, ofPattern, checkAlphabet]
  cases alphabet.check p with
  | error e => simp
  | ok u => simp

/-- A character that the pattern may not hold is reported, whatever else is wrong with the pattern. -/
theorem ofPattern_of_firstRefused {i : Nat} {c : Char} (h : alphabet.FirstRefused p i c) :
    ofPattern p (some alphabet) = .error (.unexpectedSymbol (.text [c]) p i) := by
  rw [ofPattern, checkAlphabet, Alphabet.check_eq_error_iff.mpr ⟨i, c, h, rfl⟩]

/-- An alphabet that admits the pattern makes no difference. -/
theorem ofPattern_of_admits (h : ∀ c ∈ p, alphabet.Admits c) : ofPattern p (some alphabet) = ofPattern p := by
  have hcheck : alphabet.check p = .ok () := Alphabet.check_eq_ok_iff.mpr fun c hc => Alphabet.allows_iff.mpr (h c hc)
  rw [ofPattern_none, ofPattern, checkAlphabet, hcheck]

/-- An operand that is not in the alphabet is the parenthesis of a group that is never closed. -/
theorem mem_or_unclosed_of_literal_mem_parse {s : Symbol} (hallows : ∀ c ∈ p, alphabet.allows c = true)
    (hs : .literal s ∈ parse p) : s ∈ alphabet ∨ s = ['('] ∧ unclosed 0 p ≠ 0 := by
  rcases literal_mem_parse_iff.mp hs with ⟨c, hc, hreserved, rfl⟩ | h
  · exact Or.inl ((Alphabet.allows_iff.mp (hallows c hc)).resolve_left hreserved)
  · exact Or.inr h

theorem exists_graph_iff_literal_mem_parse (h : ofPattern p = .ok A) {s : Symbol} :
    (s ≠ Symbol.epsilon ∧ ∃ q r, A.arena.graph q s r) ↔ .literal s ∈ parse p := by
  obtain ⟨e, hpostorder, rfl⟩ := ofPostfix_eq_ok_iff.mp h
  simp only [Expr.graph_automaton]
  constructor
  · rintro ⟨hs, hedge⟩
    exact hpostorder ▸ (Expr.exists_graph_iff hs).mp hedge
  · intro hs
    have hne : s ≠ Symbol.epsilon := by
      rcases literal_mem_parse_iff.mp hs with ⟨c, -, -, rfl⟩ | ⟨rfl, -⟩ <;> exact List.cons_ne_nil _ _
    exact ⟨hne, (Expr.exists_graph_iff hne).mpr (hpostorder ▸ hs)⟩

theorem literal_mem_parse_of_accepts (h : ofPattern p = .ok A) {text : Text}
    (haccepts : A.accepts (Word.ofText text) = true) {c : Char} (hc : c ∈ text) : .literal [c] ∈ parse p := by
  obtain ⟨e, hpostorder, rfl⟩ := ofPostfix_eq_ok_iff.mp h
  rw [accepts_iff_path e.closed_automaton e.initial_lt_size_automaton] at haccepts
  obtain ⟨q, hpath, -⟩ := haccepts
  have hmem : [c] ∈ Word.ofText text := List.mem_map_of_mem hc
  exact (exists_graph_iff_literal_mem_parse h).mp ⟨List.cons_ne_nil c [], hpath.exists_edge hmem⟩

/-- **What the alphabet of a compiled pattern ensures**: the symbols on edges are the operands of the pattern; each of
them, and so each character of a text that is accepted, is in the alphabet or is a parenthesis that is never closed; and
all are in the alphabet just if every group is closed, or the alphabet has this parenthesis. -/
theorem ofPattern_alphabet (h : ofPattern p (some alphabet) = .ok A) :
    (∀ s, (s ≠ Symbol.epsilon ∧ ∃ q r, A.arena.graph q s r) ↔ .literal s ∈ parse p) ∧
      (∀ s, .literal s ∈ parse p → s ∈ alphabet ∨ s = ['('] ∧ unclosed 0 p ≠ 0) ∧
      (∀ text, A.accepts (Word.ofText text) = true → ∀ c ∈ text, [c] ∈ alphabet ∨ c = '(' ∧ unclosed 0 p ≠ 0) ∧
      ((∀ s, .literal s ∈ parse p → s ∈ alphabet) ↔ unclosed 0 p = 0 ∨ ['('] ∈ alphabet) := by
  obtain ⟨hallows, hok⟩ := ofPattern_some_eq_ok_iff.mp h
  have hliterals : ∀ s, .literal s ∈ parse p → s ∈ alphabet ∨ s = ['('] ∧ unclosed 0 p ≠ 0 :=
    fun s => mem_or_unclosed_of_literal_mem_parse hallows
  refine ⟨fun s => exists_graph_iff_literal_mem_parse hok, hliterals, fun text haccepts c hc => ?_, fun hall => ?_, ?_⟩
  · simpa using hliterals [c] (literal_mem_parse_of_accepts hok haccepts hc)
  · by_cases hclosed : unclosed 0 p = 0
    · exact Or.inl hclosed
    · exact Or.inr (hall _ (literal_mem_parse_iff.mpr (Or.inr ⟨rfl, hclosed⟩)))
  · rintro (hclosed | hmem) s hs
    · exact (hliterals s hs).resolve_right fun h => h.2 hclosed
    · rcases hliterals s hs with h | ⟨rfl, -⟩
      · exact h
      · exact hmem

/-- The pattern `a|b)*a` compiles with the letters `a` and `b`, and what it accepts is made of these. -/
theorem ofPattern_alphabet_unopened :
    let p := ['a', '|', 'b', ')', '*', 'a']
    let alphabet := Alphabet.ofText ['a', 'b']
    ∃ A, ofPattern p (some alphabet) = .ok A ∧
      ∀ text, A.accepts (Word.ofText text) = true → ∀ c ∈ text, [c] ∈ alphabet := by
  intro p alphabet
  have hok : ∃ A, ofPattern p (some alphabet) = .ok A := ⟨_, rfl⟩
  obtain ⟨A, hok⟩ := hok
  obtain ⟨-, -, htexts, -⟩ := ofPattern_alphabet hok
  exact ⟨A, hok, fun text haccepts c hc => (htexts text haccepts c hc).resolve_right fun h => h.2 rfl⟩

/-- With the letter `a` alone the pattern `a(` compiles, and it accepts a text with a parenthesis. -/
theorem ofPattern_alphabet_unclosed :
    let p := ['a', '(']
    let alphabet := Alphabet.ofText ['a']
    ∃ A, ofPattern p (some alphabet) = .ok A ∧ .literal ['('] ∈ parse p ∧ ['('] ∉ alphabet ∧
      A.accepts (Word.ofText p) = true := by
  intro p alphabet
  let e := Expr.concat (.literal ['a']) (.literal ['('])
  have hok : ofPattern p (some alphabet) = .ok e.automaton := ofPostfix_postorder e
  have hword : Word.ofText p ∈ e.language := Language.mem_mul.mpr ⟨[['a']], rfl, [['(']], rfl, rfl⟩
  exact ⟨e.automaton, hok, by decide, by decide, (e.accepts_automaton_iff (by decide)).mpr hword⟩

end Automaton
end PatternAutomata
