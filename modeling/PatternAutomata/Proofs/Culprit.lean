import PatternAutomata.Proofs.Alphabet
import PatternAutomata.Proofs.Outcome
import PatternAutomata.Proofs.PostfixText

/-!
# Errors point at their culprit

The position of an error counts characters if the alphabet refuses a pattern, and tokens otherwise, but the message cuts a
window out of a text around it. The two agree where every token has one character, and the tokens that are read from a
text, or that a pattern is put into, have: then the position is that of the culprit in the text, and the window holds it.

* `CompileError.window_eq` — the window as a part of the source, cut off where the source begins or ends;
* `Automaton.pointsAtCulprit_of_tokenize` — the errors of a list of tokens that was read from a text;
* `Automaton.errors_point_at_culprit` — these, and the errors of patterns.
-/

namespace PatternAutomata

/-! ### Positions and windows -/

namespace CompileError

/-- The position of the error is that of its culprit in the source: of the operator that lacks operands, of the last
character if operands are left over, of the character that is not expected. -/
inductive PointsAtCulprit : CompileError → Prop
  | underflow {o : Operator} {source : Text} {i : Nat} (h : source[i]? = some o.symbol) :
      PointsAtCulprit (.operandUnderflow o source i)
  | overflow {count : Nat} {source : Text} {i : Nat} (h : i + 1 = source.length) :
      PointsAtCulprit (.operandOverflow count source i)
  | unexpected {c : Char} {source : Text} {i : Nat} (h : source[i]? = some c) :
      PointsAtCulprit (.unexpectedSymbol (.text [c]) source i)

/-- The error points at its culprit, and its message ends with the part of the source around the position: up to three
characters in front of it, and up to three from it on. -/
structure Located (e : CompileError) (i : Nat) : Prop where
  lt_length : i < e.source.length
  pointsAtCulprit : e.PointsAtCulprit
  shown : ∃ window : Text, window <:+ e.message ∧
    window = (e.source.drop (i - min i 3)).take (min i 3 + min 3 (e.source.length - i)) ∧
    window.length = min i 3 + min 3 (e.source.length - i) ∧ window[min i 3]? = e.source[i]?

variable {e : CompileError} {source : Text} {i : Nat}

theorem PointsAtCulprit.lt_length (h : e.PointsAtCulprit) (hi : e.index? = some i) : i < e.source.length := by
  cases h with
  | underflow h =>
    cases hi
    exact (List.getElem?_eq_some_iff.mp h).1
  | overflow h =>
    cases hi
    exact Nat.lt_of_lt_of_eq (Nat.lt_succ_self _) h
  | unexpected h =>
    cases hi
    exact (List.getElem?_eq_some_iff.mp h).1

theorem window_isSuffix_message (hi : e.index? = some i) : window e.source i <:+ e.message := by
  rw [message, hi]
  exact List.suffix_append _ _

/-- The window ends where the source does, if that is less than three characters behind its position. -/
theorem window_eq (source : Text) (i : Nat) :
    window source i = (source.drop (i - min i 3)).take (min i 3 + min 3 (source.length - i)) := by
  have hstart : i - min i 3 = i - 3 := by omega
  rw [window, List.drop_take, hstart, List.take_eq_take_iff, List.length_drop]
  omega

theorem length_window (h : i ≤ source.length) : (window source i).length = min i 3 + min 3 (source.length - i) := by
  rw [window, List.length_drop, List.length_take]
  omega

/-- The position is found in the window. -/
theorem getElem?_window (source : Text) (i : Nat) : (window source i)[min i 3]? = source[i]? := by
  have hposition : i - 3 + min i 3 = i := by omega
  rw [window, List.getElem?_drop, hposition, List.getElem?_take_of_lt (by omega)]

theorem PointsAtCulprit.located (h : e.PointsAtCulprit) (hi : e.index? = some i) : e.Located i where
  lt_length := h.lt_length hi
  pointsAtCulprit := h
  shown := ⟨window e.source i, window_isSuffix_message hi, window_eq e.source i,
    length_window (Nat.le_of_lt (h.lt_length hi)), getElem?_window e.source i⟩

end CompileError

/-! ### Tokens that were read from a text -/

namespace Token

variable {c : Char} {o : Operator} {v : Value}

theorem ofChar_eq_operator_iff : ofChar c = operator o ↔ c = o.symbol := by
  constructor
  · intro h
    have htext := congrArg text h
    rw [text_ofChar] at htext
    exact List.singleton_inj.mp htext
  · rintro rfl
    exact ofChar_symbol o

theorem ofChar_ne_foreign : ofChar c ≠ foreign v := by
  unfold ofChar
  split <;> exact fun h => nomatch h

theorem getElem?_tokenize_eq_some_iff {source : Text} {i : Nat} {t : Token} :
    (tokenize source)[i]? = some t ↔ ∃ c, source[i]? = some c ∧ ofChar c = t := by
  rw [tokenize, List.getElem?_map, Option.map_eq_some_iff]

end Token

namespace Automaton

open CompileError Token

variable {source : Text} {p : Text} {alphabet : Option Alphabet} {e : CompileError} {i : Nat}

/-- **The errors of tokens that were read from a text point at their culprit** in the text, unless there was nothing to
read. -/
theorem pointsAtCulprit_of_tokenize (h : ofPostfix (tokenize source) = .error e) :
    e = .emptyPattern ∨ e.PointsAtCulprit := by
  rcases ofPostfix_error_cases h with ⟨-, rfl⟩ | ⟨j, v, -, hv, -⟩ | ⟨j, o, -, ho, rfl⟩ | ⟨count, hne, -, -, -, rfl⟩
  · exact Or.inl rfl
  · obtain ⟨c, -, hc⟩ := getElem?_tokenize_eq_some_iff.mp hv
    exact absurd hc ofChar_ne_foreign
  · obtain ⟨c, hget, hc⟩ := getElem?_tokenize_eq_some_iff.mp ho
    obtain rfl := ofChar_eq_operator_iff.mp hc
    rw [textOf_tokenize]
    exact Or.inr (.underflow hget)
  · have hlength : (tokenize source).length = source.length := List.length_map _
    have hpos : 0 < (tokenize source).length := List.length_pos_iff.mpr hne
    rw [textOf_tokenize]
    exact Or.inr (.overflow (by omega))

/-- The tokens of a pattern are those that are read from their text. -/
theorem pointsAtCulprit_of_ofPattern (h : ofPattern p alphabet = .error e) : e = .emptyPattern ∨ e.PointsAtCulprit := by
  have hparse : tokenize (textOf (Pattern.parse p)) = Pattern.parse p :=
    tokenize_textOf_iff.mpr fun t ht => Pattern.exists_ofChar_of_mem_toPostfix ht
  have hplain : ofPattern p = .error e → e = .emptyPattern ∨ e.PointsAtCulprit := by
    intro h
    rw [ofPattern_none, ← hparse] at h
    exact pointsAtCulprit_of_tokenize h
  cases alphabet with
  | none => exact hplain h
  | some alphabet =>
    rcases alphabet.exists_firstRefused_or p with ⟨i, c, hfirst⟩ | hadmits
    · cases h.symm.trans (ofPattern_of_firstRefused hfirst)
      exact Or.inr (.unexpected hfirst.1)
    · exact hplain (ofPattern_of_admits hadmits ▸ h)

/-- **Errors point at their culprit.** When a pattern, with an alphabet or without, or a postfix text is refused with a
position, the position lies in the source that the error names, the culprit stands there, and the message ends with the
part of the source around it. -/
theorem errors_point_at_culprit :
    (∀ p alphabet e i, ofPattern p alphabet = .error e → e.index? = some i → e.Located i) ∧
      ∀ source e i, ofPostfix (tokenize source) = .error e → e.index? = some i → e.Located i := by
  have hlocated : ∀ {e : CompileError} {i : Nat}, e = .emptyPattern ∨ e.PointsAtCulprit → e.index? = some i →
      e.Located i := by
    rintro e i (rfl | hpoints) hi
    · cases hi
    · exact hpoints.located hi
  constructor
  · intro p alphabet e i herror hi
    exact hlocated (pointsAtCulprit_of_ofPattern herror) hi
  · intro source e i herror hi
    exact hlocated (pointsAtCulprit_of_tokenize herror) hi

/-- In the pattern `a|*c` the bar lacks an operand, but the alphabet refuses `c` before that is found out; in the postfix
text `a.` the dot lacks an operand. -/
theorem errors_point_at_culprit_refused :
    let p := ['a', '|', '*', 'c']
    let alphabet := Alphabet.ofText ['a', 'b']
    let refused : CompileError := .unexpectedSymbol (.text ['c']) p 3
    let short : CompileError := .operandUnderflow .concat ['a', '.'] 1
    ofPattern p (some alphabet) = .error refused ∧ refused.Located 3 ∧
      ofPostfix (tokenize ['a', '.']) = .error short ∧ short.Located 1 := by
  intro p alphabet refused short
  have hrefused : ofPattern p (some alphabet) = .error refused := by decide
  have hshort : ofPostfix (tokenize ['a', '.']) = .error short := by decide
  obtain ⟨hpattern, hpostfix⟩ := errors_point_at_culprit
  exact ⟨hrefused, hpattern p (some alphabet) refused 3 hrefused rfl, hshort, hpostfix ['a', '.'] short 1 hshort rfl⟩

end Automaton
end PatternAutomata
