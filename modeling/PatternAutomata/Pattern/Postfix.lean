import PatternAutomata.Pattern.Completion
import PatternAutomata.Token

/-!
# Postfix order

`toPostfix` puts the tokens of a pattern with explicit dots into postfix order. Operators wait on a stack until one that
binds less tightly, the end of their group or the end of the pattern releases them, so operators of equal precedence
associate to the left. Nothing is validated: a closing parenthesis without partner releases all operators, and an
opening one without partner comes out as a literal in the end.
-/

namespace PatternAutomata.Pattern

/-- What waits on the stack: an open group, or an operator. -/
inductive Pending
  | group
  | operator (o : Operator)
deriving DecidableEq, Repr

namespace Pending

def isOperator : Pending → Bool
  | group => false
  | operator _ => true

/-- Whether an operator on the stack is released by the arrival of `o`. -/
def yieldsTo (o : Operator) : Pending → Bool
  | group => false
  | operator p => o.precedence ≤ p.precedence

/-- The token that comes out. -/
def token : Pending → Token
  | group => .literal ['(']
  | operator o => .operator o

end Pending

/-- The postfix tokens of a rest of a pattern, `stack` waiting. -/
def toPostfixFrom (stack : List Pending) : Text → List Token
  | [] => stack.map Pending.token
  | c :: rest =>
    if c = '(' then toPostfixFrom (.group :: stack) rest
    else if c = ')' then
      (stack.takeWhile Pending.isOperator).map Pending.token ++
        toPostfixFrom (stack.dropWhile Pending.isOperator).tail rest
    else match Operator.ofChar? c with
      | some o =>
        (stack.takeWhile (Pending.yieldsTo o)).map Pending.token ++
          toPostfixFrom (.operator o :: stack.dropWhile (Pending.yieldsTo o)) rest
      | none => .literal [c] :: toPostfixFrom stack rest

section Characters

variable {stack : List Pending} {rest : Text} {c : Char}

theorem toPostfixFrom_open : toPostfixFrom stack ('(' :: rest) = toPostfixFrom (.group :: stack) rest := by
  rw [toPostfixFrom, if_pos rfl]

theorem toPostfixFrom_close :
    toPostfixFrom stack (')' :: rest) =
      (stack.takeWhile Pending.isOperator).map Pending.token ++
        toPostfixFrom (stack.dropWhile Pending.isOperator).tail rest := by
  rw [toPostfixFrom, if_neg (by decide), if_pos rfl]

theorem toPostfixFrom_operator (o : Operator) :
    toPostfixFrom stack (o.symbol :: rest) =
      (stack.takeWhile (Pending.yieldsTo o)).map Pending.token ++
        toPostfixFrom (.operator o :: stack.dropWhile (Pending.yieldsTo o)) rest := by
  rw [toPostfixFrom, if_neg (by cases o <;> decide), if_neg (by cases o <;> decide), Operator.ofChar?_symbol]

theorem toPostfixFrom_operand (hopen : c ≠ '(') (hclose : c ≠ ')') (hoperator : Operator.ofChar? c = none) :
    toPostfixFrom stack (c :: rest) = .literal [c] :: toPostfixFrom stack rest := by
  rw [toPostfixFrom, if_neg hopen, if_neg hclose, hoperator]

end Characters

/-- The postfix tokens of a pattern with explicit dots. -/
def toPostfix (pattern : Text) : List Token := toPostfixFrom [] pattern

/-- The postfix tokens of a pattern. -/
def parse (pattern : Text) : List Token := toPostfix (complete pattern)

end PatternAutomata.Pattern
