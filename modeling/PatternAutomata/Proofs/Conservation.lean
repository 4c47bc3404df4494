import PatternAutomata.Proofs.Partners

/-!
# Postfix order conserves tokens

Every token of a pattern in postfix order comes from a character of the pattern. Operators may wait, so they come out in
another order; operands do not, so theirs is kept. A parenthesis comes out only if it opens a group that is never closed,
as an operand (`toPostfix_conserves`).

* `toPostfix_perm` — the tokens without their order;
* `operands_toPostfixFrom` — the order of the operands;
* `length_filterMap_token?` — the characters that do not come out.
-/

namespace PatternAutomata

namespace Token

/-- The operator, if the token is one. -/
def operator? : Token → Option Operator
  | operator o => some o
  | _ => none

/-- The symbol, if the token is an operand. -/
def symbol? : Token → Option Symbol
  | literal s => some s
  | _ => none

end Token

namespace Pattern

/-! ### Tokens without their order -/

section Order

variable {c : Char} {p : Text}

theorem bind_token?_operator? (c : Char) : (token? c).bind Token.operator? = Operator.ofChar? c := by
  by_cases hparenthesis : c = '(' ∨ c = ')'
  · rcases hparenthesis with rfl | rfl <;> rfl
  · rw [token?, if_neg hparenthesis, Option.bind_some, Token.ofChar]
    split
    next o ho => rw [ho]; rfl
    next hnone => rw [hnone]; rfl

theorem foreign_notMem_filterMap_token? (v : Value) (p : Text) : .foreign v ∉ p.filterMap token? := by
  intro hmem
  obtain ⟨c, -, htoken⟩ := List.mem_filterMap.mp hmem
  rw [token?, Token.ofChar] at htoken
  split at htoken
  · cases htoken
  · split at htoken <;> cases htoken

theorem literal_notMem_filterMap_token? (hc : c ∈ reserved) (p : Text) : .literal [c] ∉ p.filterMap token? := by
  intro hmem
  obtain ⟨d, -, htoken⟩ := List.mem_filterMap.mp hmem
  obtain ⟨hd, heq⟩ := token?_eq_some_literal_iff.mp htoken
  rw [List.singleton_inj] at heq
  exact hd (heq ▸ hc)

/-- The tokens are those of the characters, and a parenthesis for every group that is never closed. -/
theorem toPostfix_perm (p : Text) :
    (toPostfix p).Perm (p.filterMap token? ++ List.replicate (loneOpenings p) (.literal ['('])) := by
  rw [loneOpenings_eq]
  exact toPostfixFrom_perm [] p

theorem operators_toPostfix_perm (p : Text) :
    ((toPostfix p).filterMap Token.operator?).Perm (p.filterMap Operator.ofChar?) := by
  have hcharacters : (p.filterMap token?).filterMap Token.operator? = p.filterMap Operator.ofChar? := by
    rw [List.filterMap_filterMap]
    exact List.filterMap_congr fun c _ => bind_token?_operator? c
  have hlone : (List.replicate (loneOpenings p) (.literal ['('])).filterMap Token.operator? = [] :=
    List.filterMap_replicate_of_none rfl
  have hperm := (toPostfix_perm p).filterMap Token.operator?
  rwa [List.filterMap_append, hcharacters, hlone, List.append_nil] at hperm

theorem count_group_toPostfix (p : Text) : (toPostfix p).count (.literal ['(']) = loneOpenings p := by
  rw [(toPostfix_perm p).count_eq, List.count_append, List.count_replicate_self,
    List.count_eq_zero.mpr (literal_notMem_filterMap_token? (by decide) p), Nat.zero_add]

theorem literal_close_notMem_toPostfix (p : Text) : .literal [')'] ∉ toPostfix p := by
  rw [(toPostfix_perm p).mem_iff, List.mem_append, List.mem_replicate]
  rintro (hmem | ⟨-, heq⟩)
  · exact literal_notMem_filterMap_token? (by decide) p hmem
  · exact absurd heq (by decide)

theorem foreign_notMem_toPostfix (v : Value) (p : Text) : .foreign v ∉ toPostfix p := by
  rw [(toPostfix_perm p).mem_iff, List.mem_append, List.mem_replicate]
  rintro (hmem | ⟨-, heq⟩)
  · exact foreign_notMem_filterMap_token? v p hmem
  · cases heq

/-- All characters but parentheses come out as tokens. -/
theorem length_filterMap_token? (p : Text) : (p.filterMap token?).length + p.count '(' + p.count ')' = p.length := by
  induction p with
  | nil => rfl
  | cons c p ih =>
    rw [List.count_cons, List.count_cons, List.length_cons, ← ih]
    by_cases hopen : c = '('
    · subst hopen
      rw [List.filterMap_cons_none rfl]
      simp
      omega
    by_cases hclose : c = ')'
    · subst hclose
      rw [List.filterMap_cons_none rfl]
      simp
      omega
    · have htoken : token? c = some (.ofChar c) := if_neg (not_or.mpr ⟨hopen, hclose⟩)
      rw [List.filterMap_cons_some htoken]
      simp [hopen, hclose]
      omega

theorem length_toPostfix (p : Text) : (toPostfix p).length + p.count ')' + pairs p = p.length := by
  have hlength := (toPostfix_perm p).length_eq
  have hcharacters := length_filterMap_token? p
  have hpairs := pairs_add_loneOpenings p
  rw [List.length_append, List.length_replicate] at hlength
  omega

end Order

/-! ### The order of operands -/

/-- The operands in order, but for parentheses. -/
def operands (ts : List Token) : List Symbol := (ts.filterMap Token.symbol?).filter (· ≠ ['('])

section Operands

variable {ts us : List Token} {c : Char}

theorem operands_append : operands (ts ++ us) = operands ts ++ operands us := by
  rw [operands, List.filterMap_append, List.filter_append, operands, operands]

theorem operands_map_token (stack : List Pending) : operands (stack.map Pending.token) = [] := by
  induction stack with
  | nil => rfl
  | cons top stack ih =>
    cases top with
    | group => exact ih
    | operator o => exact ih

theorem operands_waiting (waiting : List Operator) : operands (waiting.map .operator) = [] := by
  have h := operands_map_token (waiting.map .operator)
  rwa [List.map_map] at h

theorem operands_literal_cons (hc : c ∉ reserved) : operands (.literal [c] :: ts) = [c] :: operands ts := by
  have hne : ([c] : Symbol) ≠ ['('] := by
    rw [ne_eq, List.singleton_inj]
    rintro rfl
    exact hc (by decide)
  have hsymbol : (Token.literal [c]).symbol? = some [c] := rfl
  rw [operands, List.filterMap_cons_some hsymbol, List.filter_cons_of_pos (by simpa using hne), operands]

/-- **Operands come out in their order**, whatever waits. -/
theorem operands_toPostfixFrom (stack : List Pending) (p : Text) :
    operands (toPostfixFrom stack p) = (p.filter (· ∉ reserved)).map fun c => [c] := by
  have hreserved : ∀ {c : Char} {p : Text}, c ∈ reserved → (c :: p).filter (· ∉ reserved) = p.filter (· ∉ reserved) :=
    fun hc => List.filter_cons_of_neg (by simp [hc])
  induction stack, p using stack_induction with
  | nil stack => exact operands_map_token stack
  | opening stack p ih => rw [toPostfixFrom_open, ih, hreserved (by decide)]
  | unmatched waiting p ih =>
    rw [toPostfixFrom_waiting_close_nil, operands_append, operands_waiting, ih, hreserved (by decide), List.nil_append]
  | closing waiting below p ih =>
    rw [toPostfixFrom_waiting_close, operands_append, operands_waiting, ih, hreserved (by decide), List.nil_append]
  | operator o waiting below p hwaiting hbelow ih =>
    rw [toPostfixFrom_waiting_operator hwaiting hbelow, operands_append, operands_waiting, ih,
      hreserved (by cases o <;> decide), List.nil_append]
  | literal c stack p hc ih =>
    rw [toPostfixFrom_literal hc, operands_literal_cons hc, ih, List.filter_cons_of_pos (by simpa using hc), List.map_cons]

end Operands

/-- **Postfix order conserves tokens**, also those of a pattern that does not compile. The operators are those of the
pattern, each as often as there. The operands, but for parentheses, are its characters without a meaning of their own, in
their order. A parenthesis comes out for every group that is never closed, and nothing else comes out. So all characters
come out but those that close a group or none, and those whose group is closed. -/
theorem toPostfix_conserves (p : Text) :
    ((toPostfix p).filterMap Token.operator?).Perm (p.filterMap Operator.ofChar?) ∧
      ((toPostfix p).filterMap Token.symbol?).filter (· ≠ ['(']) =
        (p.filter (· ∉ ['(', ')', '*', '.', '|'])).map (fun c => [c]) ∧
      (toPostfix p).count (.literal ['(']) = loneOpenings p ∧
      .literal [')'] ∉ toPostfix p ∧
      (∀ v, .foreign v ∉ toPostfix p) ∧
      (toPostfix p).length + p.count ')' + pairs p = p.length := by
  refine ⟨operators_toPostfix_perm p, ?_, count_group_toPostfix p, literal_close_notMem_toPostfix p, ?_, length_toPostfix p⟩
  · exact operands_toPostfixFrom [] p
  · exact fun v => foreign_notMem_toPostfix v p

end Pattern
end PatternAutomata
