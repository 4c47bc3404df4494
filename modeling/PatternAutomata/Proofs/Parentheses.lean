import Mathlib.Data.List.Count
import PatternAutomata.Proofs.Completion

/-!
# Parentheses

Parentheses are never checked, so those without partner count.

* `unopened`, `unclosed` — the numbers of closing and of opening parentheses without partner;
* `parse_groups_of_le`, `parse_parenthesized` — groups that are opened in front of a pattern change nothing if they are
  closed, nor do parentheses behind it that close nothing else;
* `toPostfixFrom_perm` — the tokens of a pattern in postfix order are those that its characters stand for, but for the
  parentheses that are never closed, which become literals;
* `sum_weight_parse` — how many operands a pattern leaves.
-/

namespace PatternAutomata.Pattern

/-- The number of closing parentheses that close nothing, when `d` groups are open in front of the text. -/
def unopened (d : Nat) : Text → Nat
  | [] => 0
  | c :: p =>
    if c = '(' then unopened (d + 1) p
    else if c = ')' then (if d = 0 then 1 else 0) + unopened (d - 1) p
    else unopened d p

/-- The number of groups that are open at the end of the text, when `d` are in front of it. -/
def unclosed (d : Nat) : Text → Nat
  | [] => d
  | c :: p =>
    if c = '(' then unclosed (d + 1) p
    else if c = ')' then unclosed (d - 1) p
    else unclosed d p

section Count

variable {c : Char} {p : Text} {d j : Nat}

@[simp] theorem unopened_nil : unopened d [] = 0 := rfl

@[simp] theorem unopened_open : unopened d ('(' :: p) = unopened (d + 1) p := rfl

@[simp] theorem unopened_close : unopened d (')' :: p) = (if d = 0 then 1 else 0) + unopened (d - 1) p := rfl

theorem unopened_other (hopen : c ≠ '(') (hclose : c ≠ ')') : unopened d (c :: p) = unopened d p := by
  rw [unopened, if_neg hopen, if_neg hclose]

@[simp] theorem unclosed_nil : unclosed d [] = d := rfl

@[simp] theorem unclosed_open : unclosed d ('(' :: p) = unclosed (d + 1) p := rfl

@[simp] theorem unclosed_close : unclosed d (')' :: p) = unclosed (d - 1) p := rfl

theorem unclosed_other (hopen : c ≠ '(') (hclose : c ≠ ')') : unclosed d (c :: p) = unclosed d p := by
  rw [unclosed, if_neg hopen, if_neg hclose]

theorem unopened_operator (o : Operator) : unopened d (o.symbol :: p) = unopened d p := by cases o <;> rfl

theorem unclosed_operator (o : Operator) : unclosed d (o.symbol :: p) = unclosed d p := by cases o <;> rfl

theorem unopened_literal (h : c ∉ reserved) : unopened d (c :: p) = unopened d p :=
  unopened_other (by rintro rfl; exact h (by decide)) (by rintro rfl; exact h (by decide))

theorem unclosed_literal (h : c ∉ reserved) : unclosed d (c :: p) = unclosed d p :=
  unclosed_other (by rintro rfl; exact h (by decide)) (by rintro rfl; exact h (by decide))

theorem unclosed_cons : unclosed d (c :: p) = unclosed (unclosed d [c]) p := by
  simp only [unclosed]
  split_ifs <;> rfl

theorem unopened_cons : unopened d (c :: p) = unopened d [c] + unopened (unclosed d [c]) p := by
  simp only [unopened, unclosed]
  split_ifs <;> simp

theorem unclosed_append {q : Text} : unclosed d (p ++ q) = unclosed (unclosed d p) q := by
  induction p generalizing d with
  | nil => rfl
  | cons c p ih => rw [List.cons_append, unclosed_cons, ih, ← unclosed_cons]

theorem unopened_append {q : Text} : unopened d (p ++ q) = unopened d p + unopened (unclosed d p) q := by
  induction p generalizing d with
  | nil => rw [List.nil_append, unopened_nil, Nat.zero_add, unclosed_nil]
  | cons c p ih =>
    rw [List.cons_append, unopened_cons, ih, unopened_cons (p := p), unclosed_cons (p := p), Nat.add_assoc]

/-- Groups that are open in front of a text take the closing parentheses that close nothing else, and those that get none
stay open. -/
theorem unopened_add_and_unclosed_add :
    unopened (d + j) p = unopened d p - j ∧ unclosed (d + j) p = unclosed d p + (j - unopened d p) := by
  induction p generalizing d j with
  | nil => simp
  | cons c p ih =>
    by_cases hopen : c = '('
    · subst hopen
      rw [unopened_open, unopened_open, unclosed_open, unclosed_open, Nat.add_right_comm]
      exact ih
    by_cases hclose : c = ')'
    · subst hclose
      simp only [unopened_close, unclosed_close]
      rcases d with _ | d
      · rcases j with _ | j
        · simp
        · -- one of the groups is closed here
          obtain ⟨hunopened, hunclosed⟩ := ih (d := 0) (j := j)
          rw [Nat.zero_add] at hunopened hunclosed
          simp only [Nat.zero_add, Nat.add_sub_cancel, Nat.add_one_ne_zero, if_true, if_false, Nat.zero_sub]
          omega
      · have hpred : d + 1 + j - 1 = d + j := by omega
        simpa [hpred] using ih
    · rw [unopened_other hopen hclose, unopened_other hopen hclose, unclosed_other hopen hclose,
        unclosed_other hopen hclose]
      exact ih

theorem unopened_add : unopened (d + j) p = unopened d p - j := unopened_add_and_unclosed_add.1

theorem unclosed_add : unclosed (d + j) p = unclosed d p + (j - unopened d p) := unopened_add_and_unclosed_add.2

/-- A text that closes its own groups closes as many in front of it as it has parentheses for. -/
theorem unclosed_eq_zero_of_le (h : unclosed 0 p = 0) (hle : j ≤ unopened 0 p) : unclosed j p = 0 := by
  have hadd := unclosed_add (d := 0) (j := j) (p := p)
  rw [Nat.zero_add] at hadd
  omega

theorem unopened_groups : unopened d (List.replicate j '(' ++ p) = unopened (d + j) p := by
  induction j generalizing d with
  | zero => rfl
  | succ j ih => rw [List.replicate_succ, List.cons_append, unopened_open, ih, Nat.add_right_comm, Nat.add_assoc]

theorem unclosed_groups : unclosed d (List.replicate j '(' ++ p) = unclosed (d + j) p := by
  induction j generalizing d with
  | zero => rfl
  | succ j ih => rw [List.replicate_succ, List.cons_append, unclosed_open, ih, Nat.add_right_comm, Nat.add_assoc]

/-- Of some closing parentheses those close nothing for which no group is open. -/
theorem unopened_closings {m : Nat} : unopened d (List.replicate m ')') = m - d := by
  induction m generalizing d with
  | zero => rw [Nat.zero_sub, List.replicate_zero, unopened_nil]
  | succ m ih =>
    rw [List.replicate_succ, unopened_close, ih]
    split <;> omega

theorem unclosed_closings {m : Nat} : unclosed d (List.replicate m ')') = d - m := by
  induction m generalizing d with
  | zero => rfl
  | succ m ih =>
    rw [List.replicate_succ, unclosed_close, ih]
    omega

/-- The dots that completion writes are no parentheses. -/
theorem unopened_complete_and_unclosed_complete :
    unopened d (complete p) = unopened d p ∧ unclosed d (complete p) = unclosed d p := by
  have hdot : ∀ d q, unopened d ('.' :: q) = unopened d q ∧ unclosed d ('.' :: q) = unclosed d q := fun d q =>
    ⟨unopened_operator .concat, unclosed_operator .concat⟩
  induction p generalizing d with
  | nil => exact ⟨rfl, rfl⟩
  | cons a p ih =>
    cases p with
    | nil => exact ⟨rfl, rfl⟩
    | cons b p =>
      -- only what follows `a` differs
      have hrest : ∀ q r : Text, (∀ d, unopened d q = unopened d r ∧ unclosed d q = unclosed d r) →
          unopened d (a :: q) = unopened d (a :: r) ∧ unclosed d (a :: q) = unclosed d (a :: r) := by
        intro q r h
        simp only [unopened, unclosed, h, and_self]
      rw [complete_cons_cons]
      split
      · exact hrest _ _ fun d => ⟨(hdot d _).1.trans ih.1, (hdot d _).2.trans ih.2⟩
      · exact hrest _ _ fun d => ih

theorem unopened_complete : unopened d (complete p) = unopened d p := unopened_complete_and_unclosed_complete.1

theorem unclosed_complete : unclosed d (complete p) = unclosed d p := unopened_complete_and_unclosed_complete.2

/-- Completion writes no dot behind a group that opens. -/
theorem complete_groups : complete (List.replicate j '(' ++ p) = List.replicate j '(' ++ complete p := by
  induction j with
  | zero => rfl
  | succ j ih =>
    rw [List.replicate_succ, List.cons_append, complete_cons_eq (joins_eq_false_of_not_ender (by decide)), ih]
    rfl

/-- Completion writes no dot before a parenthesis that closes. -/
theorem complete_closings {m : Nat} : complete (p ++ List.replicate m ')') = complete p ++ List.replicate m ')' := by
  induction m generalizing p with
  | zero => rw [List.replicate_zero, List.append_nil, List.append_nil]
  | succ m ih =>
    have hhead : joins p.getLast? [')'].head? = false := joins_eq_false_of_not_starter (by decide)
    rw [List.replicate_succ, List.append_cons, ih, complete_append_of_joins_eq_false hhead, complete, List.append_assoc,
      List.singleton_append]

end Count

/-! ### Groups on the stack -/

/-- The number of groups that wait. -/
abbrev depth (stack : List Pending) : Nat := stack.count .group

theorem depth_operators (waiting : List Operator) : depth (waiting.map .operator) = 0 := by
  rw [depth, List.count_eq_zero]
  simp

theorem depth_operators_append (waiting : List Operator) (stack : List Pending) :
    depth (waiting.map .operator ++ stack) = depth stack := by
  rw [depth, List.count_append, ← depth, depth_operators, Nat.zero_add]

theorem Settled.append_groups {n j : Nat} {stack : List Pending} (h : Settled n stack) :
    Settled n (stack ++ List.replicate j .group) := by
  rcases stack with _ | ⟨_ | o, stack⟩
  · cases j <;> trivial
  · trivial
  · exact h

/-- Groups below the stack are met only by parentheses that close nothing else. If there are enough of these, the groups
change nothing. -/
theorem toPostfixFrom_append_groups {stack : List Pending} {p : Text} {j : Nat} (h : j ≤ unopened (depth stack) p) :
    toPostfixFrom (stack ++ List.replicate j .group) p = toPostfixFrom stack p := by
  induction stack, p using stack_induction generalizing j with
  | nil stack =>
    obtain rfl : j = 0 := Nat.le_zero.mp h
    rw [List.replicate_zero, List.append_nil]
  | opening stack p ih =>
    have h' : j ≤ unopened (depth (.group :: stack)) p := by
      rw [depth, List.count_cons_self]
      exact h
    rw [toPostfixFrom_open, toPostfixFrom_open, ← List.cons_append, ih h']
  | unmatched waiting p ih =>
    rw [depth_operators, unopened_close, if_pos rfl] at h
    cases j with
    | zero => rw [List.replicate_zero, List.append_nil]
    | succ j =>
      -- the parenthesis takes the first of the groups, and what waits above it comes out as it does without
      rw [Nat.zero_sub] at h
      have h' : j ≤ unopened (depth []) p := by
        rw [depth, List.count_nil]
        omega
      have hrest := ih h'
      rw [List.nil_append] at hrest
      rw [List.replicate_succ, toPostfixFrom_waiting_close, toPostfixFrom_waiting_close_nil, hrest]
  | closing waiting below p ih =>
    rw [depth_operators_append, depth, List.count_cons_self, unopened_close, if_neg (Nat.succ_ne_zero _), Nat.zero_add,
      Nat.add_sub_cancel] at h
    rw [List.append_assoc, List.cons_append, toPostfixFrom_waiting_close, toPostfixFrom_waiting_close, ih h]
  | operator o waiting below p hwaiting hbelow ih =>
    rw [depth_operators_append, unopened_operator] at h
    have h' : j ≤ unopened (depth (.operator o :: below)) p := by
      rw [depth, List.count_cons_of_ne Pending.noConfusion]
      exact h
    rw [List.append_assoc, toPostfixFrom_waiting_operator hwaiting hbelow.append_groups,
      toPostfixFrom_waiting_operator hwaiting hbelow, ← List.cons_append, ih h']
  | literal c stack p hc ih =>
    rw [unopened_literal hc] at h
    rw [toPostfixFrom_literal hc, toPostfixFrom_literal hc, ih h]

theorem toPostfixFrom_groups {stack : List Pending} {p : Text} {j : Nat} :
    toPostfixFrom stack (List.replicate j '(' ++ p) = toPostfixFrom (List.replicate j .group ++ stack) p := by
  induction j generalizing stack with
  | zero => rfl
  | succ j ih =>
    rw [List.replicate_succ, List.cons_append, toPostfixFrom_open, ih, List.replicate_succ', List.append_assoc]
    rfl

theorem toPostfix_groups_of_le {p : Text} {j : Nat} (h : j ≤ unopened 0 p) :
    toPostfix (List.replicate j '(' ++ p) = toPostfix p := by
  have hgroups : toPostfixFrom ([] ++ List.replicate j .group) p = toPostfixFrom [] p := toPostfixFrom_append_groups h
  rw [toPostfix, toPostfixFrom_groups, List.append_nil]
  exact hgroups

/-- **Groups around the beginning of a pattern are neutral** if the pattern closes them. -/
theorem parse_groups_of_le {p : Text} {j : Nat} (h : j ≤ unopened 0 p) :
    parse (List.replicate j '(' ++ p) = parse p := by
  have hcomplete : j ≤ unopened 0 (complete p) := by rwa [unopened_complete]
  rw [parse, complete_groups, toPostfix_groups_of_le hcomplete, parse]

theorem parse_groups {p : Text} {j : Nat} (h : unclosed j p = 0) : parse (List.replicate j '(' ++ p) = parse p := by
  have hadd := unclosed_add (d := 0) (j := j) (p := p)
  rw [Nat.zero_add] at hadd
  exact parse_groups_of_le (by omega)

theorem toPostfixFrom_waiting_closings {waiting : List Operator} {m : Nat} :
    toPostfixFrom (waiting.map .operator) (List.replicate m ')') = waiting.map .operator := by
  induction m generalizing waiting with
  | zero => exact toPostfixFrom_waiting_nil
  | succ m ih =>
    have hrest : toPostfixFrom [] (List.replicate m ')') = [] := @ih []
    rw [List.replicate_succ, toPostfixFrom_waiting_close_nil, hrest, List.append_nil]

/-- Once no group is open, a parenthesis that closes only releases what the end of the pattern releases. -/
theorem toPostfixFrom_append_closings {stack : List Pending} {p : Text} {m : Nat} (h : unclosed (depth stack) p = 0) :
    toPostfixFrom stack (p ++ List.replicate m ')') = toPostfixFrom stack p := by
  induction stack, p using stack_induction with
  | nil stack =>
    obtain ⟨waiting, rfl | ⟨below, rfl⟩⟩ := exists_waiting stack
    · rw [List.nil_append, toPostfixFrom_waiting_closings, toPostfixFrom_waiting_nil]
    · rw [unclosed_nil, depth_operators_append, depth, List.count_cons_self] at h
      exact absurd h (Nat.succ_ne_zero _)
  | opening stack p ih =>
    have h' : unclosed (depth (.group :: stack)) p = 0 := by
      rw [depth, List.count_cons_self]
      exact h
    rw [List.cons_append, toPostfixFrom_open, toPostfixFrom_open, ih h']
  | unmatched waiting p ih =>
    rw [depth_operators, unclosed_close] at h
    rw [List.cons_append, toPostfixFrom_waiting_close_nil, toPostfixFrom_waiting_close_nil, ih h]
  | closing waiting below p ih =>
    rw [depth_operators_append, depth, List.count_cons_self, unclosed_close, Nat.add_sub_cancel] at h
    rw [List.cons_append, toPostfixFrom_waiting_close, toPostfixFrom_waiting_close, ih h]
  | operator o waiting below p hwaiting hbelow ih =>
    rw [depth_operators_append, unclosed_operator] at h
    have h' : unclosed (depth (.operator o :: below)) p = 0 := by
      rw [depth, List.count_cons_of_ne Pending.noConfusion]
      exact h
    rw [List.cons_append, toPostfixFrom_waiting_operator hwaiting hbelow, toPostfixFrom_waiting_operator hwaiting hbelow,
      ih h']
  | literal c stack p hc ih =>
    rw [unclosed_literal hc] at h
    rw [List.cons_append, toPostfixFrom_literal hc, toPostfixFrom_literal hc, ih h]

/-- **Parentheses around a pattern are neutral** if it closes its own groups, and those in front of it are closed too. -/
theorem toPostfix_parenthesized {p : Text} {j m : Nat} (hclosed : unclosed 0 p = 0) (hle : j ≤ unopened 0 p + m) :
    toPostfix (List.replicate j '(' ++ p ++ List.replicate m ')') = toPostfix p := by
  have hgroups : j ≤ unopened 0 (p ++ List.replicate m ')') := by
    rw [unopened_append, hclosed, unopened_closings]
    exact hle
  have hclosings : toPostfixFrom [] (p ++ List.replicate m ')') = toPostfixFrom [] p :=
    toPostfixFrom_append_closings hclosed
  rw [List.append_assoc, toPostfix_groups_of_le hgroups, toPostfix, hclosings, toPostfix]

theorem parse_parenthesized {p : Text} {j m : Nat} (hclosed : unclosed 0 p = 0) (hle : j ≤ unopened 0 p + m) :
    parse (List.replicate j '(' ++ p ++ List.replicate m ')') = parse p := by
  rw [parse, List.append_assoc, complete_groups, complete_closings, ← List.append_assoc]
  refine toPostfix_parenthesized ?_ ?_
  · rwa [unclosed_complete]
  · rwa [unopened_complete]

/-! ### Conservation -/

/-- The token that a character stands for, if it is no parenthesis. -/
def token? (c : Char) : Option Token := if c = '(' ∨ c = ')' then none else some (.ofChar c)

theorem token?_operator (o : Operator) : token? o.symbol = some (.operator o) := by cases o <;> rfl

theorem token?_of_not_reserved {c : Char} (h : c ∉ reserved) : token? c = some (.literal [c]) := by
  have hparenthesis : ¬ (c = '(' ∨ c = ')') := by
    rintro (rfl | rfl) <;> exact h (by decide)
  rw [token?, if_neg hparenthesis, Token.ofChar, ofChar?_of_not_reserved h]

theorem token?_eq_some_literal_iff {c : Char} {s : Symbol} :
    token? c = some (.literal s) ↔ c ∉ reserved ∧ s = [c] := by
  constructor
  · intro h
    have hc : c ∉ reserved := by
      intro hc
      rcases mem_reserved_iff.mp hc with rfl | rfl | rfl | rfl | rfl <;> cases h
    rw [token?_of_not_reserved hc] at h
    cases h
    exact ⟨hc, rfl⟩
  · rintro ⟨hc, rfl⟩
    exact token?_of_not_reserved hc

/-- The operators that wait. -/
def held : List Pending → List Token
  | [] => []
  | .group :: stack => held stack
  | .operator o :: stack => .operator o :: held stack

theorem held_operators_append (waiting : List Operator) (stack : List Pending) :
    held (waiting.map .operator ++ stack) = waiting.map .operator ++ held stack := by
  induction waiting with
  | nil => rfl
  | cons o waiting ih => exact congrArg (Token.operator o :: ·) ih

/-- At the end of a pattern all that waits comes out. -/
theorem map_token_perm (stack : List Pending) :
    (stack.map Pending.token).Perm (held stack ++ List.replicate (depth stack) Pending.group.token) := by
  induction stack with
  | nil => rfl
  | cons top stack ih =>
    cases top with
    | group =>
      rw [depth, List.count_cons_self, List.replicate_succ]
      exact (ih.cons _).trans List.perm_middle.symm
    | operator o => exact ih.cons _

/-- **Postfix order neither loses tokens nor makes any**: it holds those that wait, those of the characters, and a literal
for every group that is never closed. -/
theorem toPostfixFrom_perm (stack : List Pending) (p : Text) :
    (toPostfixFrom stack p).Perm
      (held stack ++ p.filterMap token? ++ List.replicate (unclosed (depth stack) p) Pending.group.token) := by
  induction stack, p using stack_induction with
  | nil stack =>
    rw [toPostfixFrom, unclosed_nil, List.filterMap_nil, List.append_nil]
    exact map_token_perm stack
  | opening stack p ih =>
    rw [depth, List.count_cons_self] at ih
    exact ih
  | unmatched waiting p ih =>
    have hheld := held_operators_append waiting []
    rw [List.append_nil] at hheld
    rw [toPostfixFrom_waiting_close_nil, depth_operators, hheld, List.append_assoc, List.append_assoc]
    exact ih.append_left _
  | closing waiting below p ih =>
    rw [toPostfixFrom_waiting_close, depth_operators_append, depth, List.count_cons_self, unclosed_close, Nat.add_sub_cancel,
      held_operators_append, held, List.append_assoc, List.append_assoc, ← List.append_assoc (held below)]
    exact ih.append_left _
  | operator o waiting below p hwaiting hbelow ih =>
    rw [toPostfixFrom_waiting_operator hwaiting hbelow, depth_operators_append, held_operators_append, unclosed_operator,
      List.filterMap_cons_some (token?_operator o), List.append_assoc, List.append_assoc, List.cons_append]
    refine List.Perm.append_left _ (ih.trans ?_)
    rw [List.append_assoc, depth, List.count_cons_of_ne Pending.noConfusion]
    exact List.perm_middle.symm
  | literal c stack p hc ih =>
    rw [toPostfixFrom_literal hc, unclosed_literal hc, List.filterMap_cons_some (token?_of_not_reserved hc),
      List.append_assoc, List.cons_append]
    refine (ih.cons _).trans ?_
    rw [List.append_assoc]
    exact List.perm_middle.symm

/-- What a character adds to the operands that come out. -/
def charWeight (c : Char) : ℤ := (token? c).elim 0 Token.weight

theorem sum_weight_filterMap (p : Text) : ((p.filterMap token?).map Token.weight).sum = (p.map charWeight).sum := by
  induction p with
  | nil => rfl
  | cons c p ih =>
    cases htoken : token? c with
    | none =>
      rw [List.filterMap_cons_none htoken, List.map_cons, List.sum_cons, ih, charWeight, htoken, Option.elim_none, zero_add]
    | some t =>
      rw [List.filterMap_cons_some htoken, List.map_cons, List.sum_cons, ih, List.map_cons, List.sum_cons, charWeight, htoken,
        Option.elim_some]

/-- The operands that a pattern leaves are counted by its characters and the groups that are never closed. -/
theorem sum_weight_parse (p : Text) :
    ((parse p).map Token.weight).sum = ((complete p).map charWeight).sum + unclosed 0 p := by
  have hperm := (toPostfixFrom_perm [] (complete p)).map Token.weight
  have hunclosed : unclosed (depth []) (complete p) = unclosed 0 p := unclosed_complete
  rw [hunclosed] at hperm
  have hsum := hperm.sum_eq
  rw [List.map_append, List.map_append, List.sum_append, List.sum_append, sum_weight_filterMap, List.map_replicate] at hsum
  simpa [parse, toPostfix, held, Pending.token, Token.weight] using hsum

end PatternAutomata.Pattern
