import PatternAutomata.Compilation
import PatternAutomata.Proofs.Conservation

/-!
# Reading the text of tokens

The text of some tokens is read one character at a time, so the tokens are found again just if each of them is what a
character stands for (`tokenize_textOf_iff`). Those of a pattern are: its operands are single characters, and the one that
has another meaning in a pattern, the parenthesis of a group that is never closed, has none in a postfix text
(`exists_ofChar_of_mem_toPostfix`). So a pattern and its postfix text are the same to the construction
(`tokenize_textOf_parse`).
-/

namespace PatternAutomata

/-! ### Tokens that a character stands for -/

namespace Token

variable {s : Symbol} {ts : List Token}

theorem exists_ofChar_eq_literal_iff : (∃ c, ofChar c = literal s) ↔ ∃ c, s = [c] ∧ ∀ o : Operator, c ≠ o.symbol := by
  refine exists_congr fun c => ?_
  cases hoperator : Operator.ofChar? c with
  | some o =>
    obtain rfl := Operator.ofChar?_eq_some_iff.mp hoperator
    rw [ofChar_symbol]
    exact iff_of_false (fun h => nomatch h) fun h => h.2 o rfl
  | none =>
    have hnone : ∀ o : Operator, c ≠ o.symbol := by
      rintro o rfl
      rw [Operator.ofChar?_symbol] at hoperator
      cases hoperator
    rw [ofChar, hoperator]
    constructor
    · intro h
      cases h
      exact ⟨rfl, hnone⟩
    · rintro ⟨rfl, -⟩
      rfl

/-- **Tokens are found again in their text** just if each is what a character stands for. -/
theorem tokenize_textOf_iff : tokenize (textOf ts) = ts ↔ ∀ t ∈ ts, ∃ c, ofChar c = t := by
  constructor
  · intro h t ht
    rw [← h, tokenize, List.mem_map] at ht
    obtain ⟨c, -, hc⟩ := ht
    exact ⟨c, hc⟩
  · intro h
    induction ts with
    | nil => rfl
    | cons t ts ih =>
      obtain ⟨⟨c, rfl⟩, hts⟩ := List.forall_mem_cons.mp h
      have hcons : textOf (ofChar c :: ts) = c :: textOf ts := by
        rw [textOf, List.flatMap_cons, text_ofChar, List.singleton_append, textOf]
      rw [hcons, tokenize, List.map_cons, ← tokenize, ih hts]

/-- Operators are found again in any case, so among tokens that are not foreign it depends on the literals. -/
theorem tokenize_textOf_iff_literals (hforeign : ∀ v, .foreign v ∉ ts) :
    tokenize (textOf ts) = ts ↔ ∀ s, .literal s ∈ ts → ∃ c, s = [c] ∧ ∀ o : Operator, c ≠ o.symbol := by
  rw [tokenize_textOf_iff]
  constructor
  · intro h s hs
    exact exists_ofChar_eq_literal_iff.mp (h _ hs)
  · intro h t ht
    cases t with
    | literal s => exact exists_ofChar_eq_literal_iff.mpr (h s ht)
    | operator o => exact ⟨o.symbol, ofChar_symbol o⟩
    | foreign v => exact absurd ht (hforeign v)

end Token

/-! ### Tokens of a pattern -/

namespace Pattern

open Token

theorem exists_ofChar_of_mem_toPostfix {p : Text} {t : Token} (h : t ∈ toPostfix p) : ∃ c, ofChar c = t := by
  rw [(toPostfix_perm p).mem_iff, List.mem_append, List.mem_filterMap, List.mem_replicate] at h
  rcases h with ⟨c, -, htoken⟩ | ⟨-, rfl⟩
  · rw [token?] at htoken
    split at htoken
    · cases htoken
    · exact ⟨c, Option.some.inj htoken⟩
  · exact ⟨'(', rfl⟩

/-- **A pattern and its postfix text are the same to the construction.** The tokens of the pattern are found again in their
text, so it is built to the same automaton or refused for the same reason. Every text is that of the tokens that are read
from it. The tokens of a list are found again in its text just if each literal is one character that is no operator. -/
theorem tokenize_textOf_parse :
    (∀ p, tokenize (textOf (parse p)) = parse p) ∧
      (∀ p, Automaton.ofPostfix (tokenize (textOf (parse p))) = Automaton.ofPattern p) ∧
      (∀ source, textOf (tokenize source) = source) ∧
      ∀ ts, (∀ v, .foreign v ∉ ts) →
        (tokenize (textOf ts) = ts ↔ ∀ s, .literal s ∈ ts → ∃ c, s = [c] ∧ ∀ o : Operator, c ≠ o.symbol) := by
  have hparse : ∀ p, tokenize (textOf (parse p)) = parse p := fun p =>
    tokenize_textOf_iff.mpr fun t ht => exists_ofChar_of_mem_toPostfix ht
  refine ⟨hparse, fun p => ?_, textOf_tokenize, fun ts hforeign => tokenize_textOf_iff_literals hforeign⟩
  rw [hparse, Automaton.ofPattern_none]

/-- A literal that spells an operator is read as the operator, and the one of two characters as two, but the parenthesis
that `(a*` leaves is found again. -/
theorem tokenize_textOf_parse_spelled :
    let spelled : List Token := [.literal ['a'], .literal ['*'], .literal ['b', 'c']]
    let ts : List Token := [.literal ['a'], .operator .star, .literal ['(']]
    (∀ v, .foreign v ∉ spelled) ∧ tokenize (textOf spelled) ≠ spelled ∧
      (∀ v, .foreign v ∉ ts) ∧ tokenize (textOf ts) = ts ∧ parse ['(', 'a', '*'] = ts := by
  intro spelled ts
  have hspelled : ∀ v, .foreign v ∉ spelled := by simp [spelled]
  have hts : ∀ v, .foreign v ∉ ts := by simp [ts]
  obtain ⟨hparse, -, -, hread⟩ := tokenize_textOf_parse
  refine ⟨hspelled, fun heq => ?_, hts, hparse ['(', 'a', '*'], rfl⟩
  obtain ⟨c, hc, hne⟩ := (hread spelled hspelled).mp heq ['*'] (by decide)
  cases hc
  exact hne .star rfl

end Pattern
end PatternAutomata
