import PatternAutomata.Proofs.Refusal

/-!
# Patterns without tokens

A pattern can be empty although it has characters, for parentheses do not come out as tokens unless they open a group
that is never closed. But completion writes a dot between a group that closes and one that opens. So a pattern without
tokens has all its opening parentheses in front, and enough closing ones behind them (`Pattern.parse_eq_nil_iff`). These
patterns, and no others, are refused for being empty (`Automaton.ofPattern_eq_emptyPattern_iff`).
-/

namespace PatternAutomata

namespace Pattern

variable {p : Text} {c : Char}

theorem token?_eq_none_iff : token? c = none ↔ c = '(' ∨ c = ')' := by
  simp [token?, or_iff_not_imp_left]

/-- Nothing comes out if there are only parentheses, and all that open are closed. -/
theorem toPostfix_eq_nil_iff : toPostfix p = [] ↔ (∀ c ∈ p, c = '(' ∨ c = ')') ∧ unclosed 0 p = 0 := by
  rw [← List.perm_nil, (toPostfix_perm p).congr_left, List.perm_nil, List.append_eq_nil_iff, List.filterMap_eq_nil_iff,
    List.replicate_eq_nil_iff, loneOpenings_eq]
  simp only [token?_eq_none_iff]

/-- Completion writes no dot among parentheses if all that open stand in front of all that close, and only then. -/
theorem forall_parenthesis_complete_iff :
    (∀ c ∈ complete p, c = '(' ∨ c = ')') ↔ ∃ m n, p = List.replicate m '(' ++ List.replicate n ')' := by
  constructor
  · intro h
    induction p with
    | nil => exact ⟨0, 0, rfl⟩
    | cons c p ih =>
      rw [complete_cons] at h
      split at h
      next => exact absurd (h '.' (List.mem_cons_of_mem _ List.mem_cons_self)) (by decide)
      next hjoins =>
        obtain ⟨hc, hp⟩ := List.forall_mem_cons.mp h
        obtain ⟨m, n, rfl⟩ := ih hp
        rcases hc with rfl | rfl
        · exact ⟨m + 1, n, rfl⟩
        · -- nothing opens behind a parenthesis that closes
          cases m with
          | zero => exact ⟨0, n + 1, rfl⟩
          | succ m => exact absurd rfl hjoins
  · rintro ⟨m, n, rfl⟩ c hc
    have hclosings : complete ([] ++ List.replicate n ')') = complete [] ++ List.replicate n ')' := complete_closings
    rw [List.nil_append] at hclosings
    rw [complete_groups, hclosings, complete, List.nil_append, List.mem_append, List.mem_replicate, List.mem_replicate] at hc
    exact hc.imp And.right And.right

/-- **A pattern without tokens** opens some groups and then closes at least as many. -/
theorem parse_eq_nil_iff : parse p = [] ↔ ∃ m n, m ≤ n ∧ p = List.replicate m '(' ++ List.replicate n ')' := by
  have hunclosed : ∀ m n, unclosed 0 (List.replicate m '(' ++ List.replicate n ')') = m - n := by
    intro m n
    rw [unclosed_groups, unclosed_closings, Nat.zero_add]
  rw [parse, toPostfix_eq_nil_iff, forall_parenthesis_complete_iff, unclosed_complete]
  constructor
  · rintro ⟨⟨m, n, rfl⟩, hclosed⟩
    rw [hunclosed] at hclosed
    exact ⟨m, n, Nat.sub_eq_zero_iff_le.mp hclosed, rfl⟩
  · rintro ⟨m, n, hle, rfl⟩
    exact ⟨⟨m, n, rfl⟩, by rw [hunclosed, Nat.sub_eq_zero_of_le hle]⟩

end Pattern

open Pattern

namespace Automaton

variable {p : Text} {alphabet : Option Alphabet}

theorem ofPostfix_eq_emptyPattern_iff {ts : List Token} : ofPostfix ts = .error .emptyPattern ↔ ts = [] := by
  constructor
  · intro h
    rcases ofPostfix_error_cases h with ⟨hnil, -⟩ | ⟨_, _, -, -, he⟩ | ⟨_, _, -, -, he⟩ | ⟨_, -, -, -, -, he⟩
    · exact hnil
    · cases he
    · cases he
    · cases he
  · rintro rfl
    rfl

/-- No alphabet refuses a pattern of parentheses, and what it refuses is not called empty. -/
theorem ofPattern_eq_emptyPattern_iff_parse_eq_nil : ofPattern p alphabet = .error .emptyPattern ↔ parse p = [] := by
  rw [← ofPostfix_eq_emptyPattern_iff, ← ofPattern_none]
  cases alphabet with
  | none => rfl
  | some alphabet =>
    rcases alphabet.exists_firstRefused_or p with ⟨i, c, hfirst⟩ | hadmits
    · refine iff_of_false ?_ fun hempty => ?_
      · rw [ofPattern_of_firstRefused hfirst]
        exact fun h => nomatch h
      · rw [ofPattern_none, ofPostfix_eq_emptyPattern_iff, parse_eq_nil_iff] at hempty
        obtain ⟨m, n, -, rfl⟩ := hempty
        obtain ⟨hi, hrefused, -⟩ := hfirst
        have hc := List.mem_of_getElem? hi
        rw [List.mem_append, List.mem_replicate, List.mem_replicate] at hc
        rcases hc with ⟨-, rfl⟩ | ⟨-, rfl⟩ <;> exact hrefused (Or.inl (by decide))
    · rw [ofPattern_of_admits hadmits]

/-- **The patterns that are refused for being empty**, whatever the alphabet, are those that open some groups, none or
more, and then close at least as many. Every other pattern compiles or is refused for another reason. -/
theorem ofPattern_eq_emptyPattern_iff (p : Text) (alphabet : Option Alphabet) :
    (ofPattern p alphabet = .error .emptyPattern ↔
        ∃ m n, m ≤ n ∧ p = List.replicate m '(' ++ List.replicate n ')') ∧
      ((∃ m n, m ≤ n ∧ p = List.replicate m '(' ++ List.replicate n ')') ∨
        (∃ A, ofPattern p alphabet = .ok A) ∨ ∃ e, e ≠ .emptyPattern ∧ ofPattern p alphabet = .error e) := by
  have hempty : ofPattern p alphabet = .error .emptyPattern ↔
      ∃ m n, m ≤ n ∧ p = List.replicate m '(' ++ List.replicate n ')' :=
    ofPattern_eq_emptyPattern_iff_parse_eq_nil.trans parse_eq_nil_iff
  refine ⟨hempty, ?_⟩
  cases hresult : ofPattern p alphabet with
  | ok A => exact Or.inr (Or.inl ⟨A, rfl⟩)
  | error e =>
    by_cases he : e = .emptyPattern
    · exact Or.inl (hempty.mp (he ▸ hresult))
    · exact Or.inr (Or.inr ⟨e, he, rfl⟩)

-- two groups beside each other are joined by a dot
example : parse ['(', ')', '(', ')'] = [.operator .concat] := by decide

end Automaton
end PatternAutomata
