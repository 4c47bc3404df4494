import PatternAutomata.Pattern.Postfix

/-!
# The stack of the postfix order

What the end of a pattern, a closing parenthesis and an operator release from the stack, said of stacks whose upper part is
spelled out (`toPostfixFrom_waiting_nil`, `toPostfixFrom_waiting_close`, `toPostfixFrom_waiting_operator`), and that every
stack can be spelled out so (`exists_waiting`, `exists_waiting_settled`), which makes an induction (`stack_induction`).
-/

namespace PatternAutomata.Pattern

/-- The characters that do not stand for themselves. -/
def reserved : List Char := ['(', ')', '*', '.', '|']

theorem mem_reserved_iff {c : Char} : c ∈ reserved ↔ c = '(' ∨ c = ')' ∨ c = '*' ∨ c = '.' ∨ c = '|' := by
  simp [reserved]

theorem ofChar?_of_not_reserved {c : Char} (h : c ∉ reserved) : Operator.ofChar? c = none := by
  rw [Option.eq_none_iff_forall_ne_some]
  intro o ho
  rw [Operator.ofChar?_eq_some_iff] at ho
  subst ho
  cases o <;> simp [reserved, Operator.symbol] at h

theorem toPostfixFrom_literal {stack : List Pending} {rest : Text} {c : Char} (h : c ∉ reserved) :
    toPostfixFrom stack (c :: rest) = .literal [c] :: toPostfixFrom stack rest := by
  have hopen : c ≠ '(' := by rintro rfl; exact h (by decide)
  have hclose : c ≠ ')' := by rintro rfl; exact h (by decide)
  exact toPostfixFrom_operand hopen hclose (ofChar?_of_not_reserved h)

/-! ### Operators that wait -/

/-- No operator on top of the stack is released by one that binds as tightly as `n` says. -/
def Settled (n : Nat) : List Pending → Prop
  | .operator o :: _ => o.precedence < n
  | _ => True

theorem Settled.mono {m n : Nat} {stack : List Pending} (h : Settled m stack) (hle : m ≤ n) : Settled n stack := by
  rcases stack with _ | ⟨_ | o, stack⟩
  · trivial
  · trivial
  · exact Nat.lt_of_lt_of_le h hle

section Waiting

variable {waiting : List Operator} {stack : List Pending} {rest : Text}

theorem toPostfixFrom_waiting_nil : toPostfixFrom (waiting.map .operator) [] = waiting.map .operator := by
  simp [toPostfixFrom, Pending.token]

/-- A closing parenthesis without partner releases all that waits. -/
theorem toPostfixFrom_waiting_close_nil :
    toPostfixFrom (waiting.map .operator) (')' :: rest) = waiting.map .operator ++ toPostfixFrom [] rest := by
  rw [toPostfixFrom_close]
  induction waiting with
  | nil => rfl
  | cons o waiting ih => simpa [List.takeWhile_cons, List.dropWhile_cons, Pending.isOperator, Pending.token] using ih

/-- The end of a group releases what waits in it. -/
theorem toPostfixFrom_waiting_close :
    toPostfixFrom (waiting.map .operator ++ .group :: stack) (')' :: rest) =
      waiting.map .operator ++ toPostfixFrom stack rest := by
  rw [toPostfixFrom_close]
  induction waiting with
  | nil => rfl
  | cons o waiting ih => simpa [List.takeWhile_cons, List.dropWhile_cons, Pending.isOperator, Pending.token] using ih

/-- An operator releases what waits and does not bind more loosely. -/
theorem toPostfixFrom_waiting_operator {o : Operator} (hwaiting : ∀ p ∈ waiting, o.precedence ≤ p.precedence)
    (hstack : Settled o.precedence stack) :
    toPostfixFrom (waiting.map .operator ++ stack) (o.symbol :: rest) =
      waiting.map .operator ++ toPostfixFrom (.operator o :: stack) rest := by
  rw [toPostfixFrom_operator]
  induction waiting with
  | nil =>
    rcases stack with _ | ⟨_ | p, stack⟩
    · rfl
    · rfl
    · have hlt : ¬ o.precedence ≤ p.precedence := Nat.not_le.mpr hstack
      simp [Pending.yieldsTo, hlt]
  | cons p waiting ih =>
    rw [List.forall_mem_cons] at hwaiting
    simpa [List.takeWhile_cons, List.dropWhile_cons, Pending.yieldsTo, Pending.token, hwaiting.1] using ih hwaiting.2

end Waiting

/-- A stack is either all operators, or operators in a group. -/
theorem exists_waiting (stack : List Pending) :
    ∃ waiting : List Operator, stack = waiting.map .operator ∨
      ∃ below, stack = waiting.map .operator ++ .group :: below := by
  induction stack with
  | nil => exact ⟨[], Or.inl rfl⟩
  | cons top stack ih =>
    cases top with
    | group => exact ⟨[], Or.inr ⟨stack, rfl⟩⟩
    | operator o =>
      obtain ⟨waiting, rfl | ⟨below, rfl⟩⟩ := ih
      · exact ⟨o :: waiting, Or.inl rfl⟩
      · exact ⟨o :: waiting, Or.inr ⟨below, rfl⟩⟩

/-- What the arrival of an operator releases, and what it leaves. -/
theorem exists_waiting_settled (o : Operator) (stack : List Pending) :
    ∃ (waiting : List Operator) (below : List Pending), stack = waiting.map .operator ++ below ∧
      (∀ p ∈ waiting, o.precedence ≤ p.precedence) ∧ Settled o.precedence below := by
  induction stack with
  | nil => exact ⟨[], [], rfl, by simp, trivial⟩
  | cons top stack ih =>
    cases top with
    | group => exact ⟨[], .group :: stack, rfl, by simp, trivial⟩
    | operator p =>
      by_cases hp : o.precedence ≤ p.precedence
      · obtain ⟨waiting, below, rfl, hwaiting, hbelow⟩ := ih
        exact ⟨p :: waiting, below, rfl, List.forall_mem_cons.mpr ⟨hp, hwaiting⟩, hbelow⟩
      · exact ⟨[], .operator p :: stack, rfl, by simp, Nat.lt_of_not_le hp⟩

/-- Induction on what is read of a pattern, with the upper part of the stack spelled out for each kind of character. -/
@[elab_as_elim]
theorem stack_induction {motive : List Pending → Text → Prop} (nil : ∀ stack, motive stack [])
    (opening : ∀ stack p, motive (.group :: stack) p → motive stack ('(' :: p))
    (unmatched : ∀ (waiting : List Operator) p, motive [] p → motive (waiting.map .operator) (')' :: p))
    (closing : ∀ (waiting : List Operator) below p, motive below p →
      motive (waiting.map .operator ++ .group :: below) (')' :: p))
    (operator : ∀ (o : Operator) (waiting : List Operator) below p, (∀ q ∈ waiting, o.precedence ≤ q.precedence) →
      Settled o.precedence below → motive (.operator o :: below) p →
        motive (waiting.map .operator ++ below) (o.symbol :: p))
    (literal : ∀ c stack p, c ∉ reserved → motive stack p → motive stack (c :: p)) (stack : List Pending) (p : Text) :
    motive stack p := by
  induction p generalizing stack with
  | nil => exact nil stack
  | cons c p ih =>
    by_cases hreserved : c ∈ reserved
    · rcases mem_reserved_iff.mp hreserved with rfl | rfl | hoperator
      · exact opening stack p (ih _)
      · obtain ⟨waiting, rfl | ⟨below, rfl⟩⟩ := exists_waiting stack
        · exact unmatched waiting p (ih [])
        · exact closing waiting below p (ih below)
      · have hsymbol : ∃ o : Operator, c = o.symbol := by
          rcases hoperator with rfl | rfl | rfl
          · exact ⟨.star, rfl⟩
          · exact ⟨.concat, rfl⟩
          · exact ⟨.alternate, rfl⟩
        obtain ⟨o, rfl⟩ := hsymbol
        obtain ⟨waiting, below, rfl, hwaiting, hbelow⟩ := exists_waiting_settled o stack
        exact operator o waiting below p hwaiting hbelow (ih _)
    · exact literal c stack p hreserved (ih stack)

end PatternAutomata.Pattern
